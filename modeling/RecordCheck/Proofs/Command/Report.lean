import RecordCheck.Proofs.Check.Independent
import RecordCheck.Proofs.Check.Normalize
import RecordCheck.Proofs.Command.Effects
set_option autoImplicit false

/-!
# Command: what a check reports

Verdict, numbers, lines and normalized records are each computed from the outcomes by themselves.
They agree: each outcome has its line, the lines are counted, and the array holds the records that
passed, each as its own text is read (`check_reports_outcomes`).
-/

namespace RecordCheck

namespace Check

/-- The line tells the label of a record, and its type or why it could not be decoded. -/
inductive Tells : Decoded → String → Prop
  | passed (source : String) (index : Nat) (r : Record) :
      Tells ⟨source, index, .ok r⟩ ("✅ " ++ (source ++ "#" ++ toString index) ++ " " ++ r.typename)
  | failed (source : String) (index : Nat) (e : Decode.Error) :
      Tells ⟨source, index, .error e⟩ ("❌ " ++ (source ++ "#" ++ toString index) ++ " " ++ e.text)

theorem tells_line (d : Decoded) : Tells d d.line := by
  obtain ⟨source, index, outcome⟩ := d
  cases outcome with
  | error e => exact .failed source index e
  | ok r => exact .passed source index r

theorem Summary.failed_eq_zero_iff {decoded : List Decoded} :
    (Summary.ofDecoded decoded).failed = 0 ↔ ∀ d ∈ decoded, ∃ r, d.outcome = .ok r := by
  rw [ofDecoded_eq, List.countP_eq_zero]
  simp [← Decoded.passed_iff]

/-- The text of the normalized records is read as an array of what the texts of the records are read
as. -/
theorem exists_parse_normalized (decoded : List Decoded) :
    ∃ elements, Json.parse (normalized decoded).pretty = .ok (.array elements) ∧
      List.Forall₂ Decode.IsReadAs (decoded.filterMap Decoded.record?) elements := by
  choose read hread hunique hrereads using Decode.exists_isReadAs
  refine ⟨(decoded.filterMap Decoded.record?).map read, ?_,
    List.forall₂_map_right_iff.2 (List.forall₂_same.2 fun r _ => hread r)⟩
  have hparse : Json.parse ((normalized decoded).pretty ++ "") =
      .ok (.array ((decoded.filterMap Decoded.record?).map read)) := by
    apply Json.parse_pretty
    · refine .array (List.forall₂_map_left_iff.2 (List.forall₂_map_right_iff.2
        (List.forall₂_same.2 fun r _ => hrereads r _)))
    · refine .array fun x hx => ?_
      obtain ⟨r, -, rfl⟩ := List.mem_map.1 hx
      exact hunique r
    · exact nofun
  rwa [String.append_empty] at hparse

end Check

namespace Command

open Check Files

/-- The outcome of a run reports what became of each record: whether all passed, a line for each
and, last, how many passed and how many did not. -/
structure ReportsOutcomes (outcome : Outcome) (decoded : List Decoded) : Prop where
  verdict : ∃ passed, outcome.verdict = .ok passed ∧
    (passed = true ↔ ∀ d ∈ decoded, ∃ r, d.outcome = .ok r)
  stderr : ∃ lines passed failed, List.Forall₂ Tells decoded lines ∧
    outcome.stderr = lines ++ [toString passed ++ " ok, " ++ toString failed ++ " failed"] ∧
    passed = decoded.countP Decoded.passed ∧ failed = decoded.countP (fun d => !d.passed) ∧
    passed + failed = decoded.length

/-- The outcome of a run puts out a text: in the file at a path, or on standard output with a line
break behind it. -/
def Puts (outcome : Outcome) : Option String → String → Prop
  | none, text => outcome.stdout = text ++ "\n" ∧ outcome.written = none
  | some path, text => outcome.stdout = "" ∧ outcome.written = some (path, text) ∧
      outcome.files.read path = .ok text

/-- The outcome of a run puts out an array with the encodings of the records that passed, in order,
and nothing else.  Its text is read as an array with as many elements, each of them what the text of
its record is read as: the encoding itself, but for a duration that is not kept. -/
structure PutsRecords (outcome : Outcome) (out : Option String) (decoded : List Decoded) :
    Prop where
  text : Puts outcome out
    (Json.array ((decoded.filterMap Decoded.record?).map Record.toJson)).pretty
  elements : ∃ elements,
    Json.parse (Json.array ((decoded.filterMap Decoded.record?).map Record.toJson)).pretty =
      .ok (.array elements) ∧
    elements.length = decoded.countP Decoded.passed ∧
    List.Forall₂ Decode.IsReadAs (decoded.filterMap Decoded.record?) elements

variable {files : FileSystem} {out : Option String}

theorem putOut_of_canPutOut (h : CanPutOut files out) (text : String) (stderr last : List String)
    (passed : Bool) :
    (putOut files out text stderr last passed).verdict = .ok passed ∧
      (putOut files out text stderr last passed).stderr = stderr ++ last ∧
      Puts (putOut files out text stderr last passed) out text := by
  have hverdict : (putOut files out text stderr last passed).verdict = .ok passed :=
    verdict_putOut_eq_ok_iff.2 ⟨h, rfl⟩
  refine ⟨hverdict, ?_⟩
  cases out with
  | none => exact ⟨rfl, rfl, rfl⟩
  | some path =>
    obtain ⟨hwritten, hread⟩ := read_of_putOut hverdict
    rw [Puts, hwritten, hread, putOut]
    cases hresult : writeFile files path text with
    | mk after result =>
      cases result with
      | error e =>
        rw [putOut, hresult] at hverdict
        cases hverdict
      | ok _ => exact ⟨rfl, rfl, rfl, rfl⟩

/-- What a check comes to that loads its inputs and can write its output. -/
theorem runCheck_of_decode [Filter.Library] {inputs : Inputs} {decoded : List Decoded}
    (normalize : Bool) (hdecode : inputs.decode files = .ok decoded)
    (hout : normalize = true → CanPutOut files out) :
    (runCheck files inputs normalize out).verdict =
        .ok ((Summary.ofDecoded decoded).failed == 0) ∧
      (runCheck files inputs normalize out).stderr =
        decoded.map Decoded.line ++ [(Summary.ofDecoded decoded).line] ∧
      (normalize = true →
        Puts (runCheck files inputs normalize out) out (normalized decoded).pretty) := by
  rw [runCheck, hdecode]
  cases normalize with
  | false => exact ⟨rfl, rfl, fun hfalse => absurd hfalse Bool.false_ne_true⟩
  | true =>
    obtain ⟨hverdict, hstderr, hputs⟩ := putOut_of_canPutOut (hout rfl) (normalized decoded).pretty
      (decoded.map Decoded.line) [(Summary.ofDecoded decoded).line]
      ((Summary.ofDecoded decoded).failed == 0)
    exact ⟨hverdict, hstderr, fun _ => hputs⟩

/-- A check that loads its inputs and can write its output reports what became of each record.  If
it normalizes, it puts out the records that passed. -/
theorem check_reports_outcomes [Filter.Library] {inputs : Inputs} {normalize : Bool}
    {decoded : List Decoded} (hdecode : inputs.decode files = .ok decoded)
    (hout : normalize = true → CanPutOut files out) :
    ReportsOutcomes (run files (.check inputs normalize out)) decoded ∧
      (normalize = true → PutsRecords (run files (.check inputs normalize out)) out decoded) := by
  obtain ⟨hverdict, hstderr, hputs⟩ := runCheck_of_decode normalize hdecode hout
  have hlines : List.Forall₂ Tells decoded (decoded.map Decoded.line) :=
    List.forall₂_map_right_iff.2 (List.forall₂_same.2 fun d _ => tells_line d)
  refine ⟨⟨⟨_, hverdict, ?_⟩, ?_⟩, fun hnormalize => ⟨hputs hnormalize, ?_⟩⟩
  · rw [beq_iff_eq, Summary.failed_eq_zero_iff]
  · refine ⟨_, _, _, hlines, hstderr, ?_⟩
    rw [Summary.ofDecoded_eq]
    refine ⟨rfl, rfl, ?_⟩
    simpa using (List.length_eq_countP_add_countP Decoded.passed (l := decoded)).symm
  · obtain ⟨elements, hparse, hread⟩ := exists_parse_normalized decoded
    refine ⟨elements, hparse, ?_, hread⟩
    rw [← hread.length_eq, length_records]

/-- Two items of an array are records, and the other is none; the file is written to a directory
that does not stand yet. -/
theorem check_reports_outcomes_mixed :
    let input := "[\x7b\"__typename\": \"A\", \"a_string\": \"x\"\x7d, 7, " ++
      "\x7b\"__typename\": \"ComplexSegment\", \"duration\": 3, \"value\": \"1\", " ++
      "\"_core_type\": \"\"\x7d]"
    let files : FileSystem := ⟨.directory [("in", .file (Json.bytesOf input))], [], []⟩
    let outcome := run files (.check ⟨["in"], false, none, none⟩ true (some "new/out"))
    ∃ decoded, Inputs.decode ⟨["in"], false, none, none⟩ files = .ok decoded ∧
      decoded.countP Decoded.passed = 2 ∧ decoded.length = 3 ∧
      ReportsOutcomes outcome decoded ∧ PutsRecords outcome (some "new/out") decoded := by
  intro input files outcome
  have hload : (Inputs.decode ⟨["in"], false, none, none⟩ files).toOption.any (fun decoded =>
      decoded.countP Decoded.passed = 2 ∧ decoded.length = 3) = true := by decide +kernel
  obtain ⟨decoded, hdecode, hcounts⟩ := exists_ok_of_any hload
  obtain ⟨hpassed, hlength⟩ := of_decide_eq_true hcounts
  have hout : CanPutOut files (some "new/out") := by
    intro path hpath
    obtain rfl := Option.some.inj hpath
    have hwrite : (writeFile files "new/out" "").2.toOption.any (fun _ => true) = true := by
      decide +kernel
    obtain ⟨_, hwritten, -⟩ := exists_ok_of_any hwrite
    exact hwritten
  obtain ⟨hreports, hputs⟩ : ReportsOutcomes outcome decoded ∧
      (true = true → PutsRecords outcome (some "new/out") decoded) :=
    check_reports_outcomes hdecode fun _ => hout
  exact ⟨decoded, hdecode, hpassed, hlength, hreports, hputs rfl⟩

/-- The text of an array is not always read as the encodings of the records that passed: a duration
that is written as 90.28571428571429 is read as the double below. -/
theorem not_every_array_reads_back :
    ¬∀ (files : FileSystem) (inputs : Inputs) (out : Option String) (decoded : List Decoded),
      inputs.decode files = .ok decoded → CanPutOut files out →
        ∃ text, Puts (run files (.check inputs true out)) out text ∧
          Json.parse text =
            .ok (.array ((decoded.filterMap Decoded.record?).map Record.toJson)) := by
  intro hall
  let input := "\x7b\"__typename\": \"ComplexSegment\", \"duration\": 90.2857142857142858, " ++
    "\"value\": \"1\", \"_core_type\": \"Seg\"\x7d"
  let files : FileSystem := ⟨.directory [("in", .file (Json.bytesOf input))], [], []⟩
  have hload : (Inputs.decode ⟨["in"], false, none, none⟩ files).toOption.any (fun decoded =>
      ∃ r ∈ decoded.filterMap Decoded.record?, ¬r.KeepsDuration) = true := by decide +kernel
  obtain ⟨decoded, hdecode, hdrifts⟩ := exists_ok_of_any hload
  obtain ⟨r, hr, hdrift⟩ := of_decide_eq_true hdrifts
  have hnone : CanPutOut files none := nofun
  obtain ⟨text, ⟨hstdout, -⟩, hparse⟩ := hall files _ none decoded hdecode hnone
  obtain ⟨-, -, hputs⟩ := runCheck_of_decode true hdecode fun _ => hnone
  obtain rfl : (normalized decoded).pretty = text :=
    String.append_left_inj "\n" |>.1 ((hputs rfl).1.symm.trans hstdout)
  obtain ⟨elements, hparse', hread⟩ := exists_parse_normalized decoded
  obtain rfl : (decoded.filterMap Decoded.record?).map Record.toJson = elements :=
    Json.array.inj (Except.ok.inj (hparse.symm.trans hparse'))
  have hkeeps := List.forall₂_same.1 (List.forall₂_map_right_iff.1 hread)
  exact hdrift ((hkeeps r hr).kept.1 rfl)

end Command
end RecordCheck
