import RecordCheck.Command.Run
import RecordCheck.Proofs.Check.Records
import RecordCheck.Proofs.Decode.ReadBack
import RecordCheck.Proofs.Files.Placing
set_option autoImplicit false

/-!
# Check: normalized records stay as they are

What a check writes is an array of JSON forms, each of which is decoded as the record it came from.
So a check of that text passes, and writes it again (`Command.normalize_idempotent`).
-/

namespace RecordCheck

namespace Check

/-- The inputs that are one file with one JSON text. -/
def Inputs.ofFile (input : String) : Inputs := ⟨[input], false, none, none⟩

/-- The outcomes for a file are those of the records of its value. -/
theorem Inputs.decode_ofFile [Filter.Library] {files : Files.FileSystem}
    {input path text : String} {x : Json} (hresolve : resolve files input = .ok [path])
    (hread : files.read path = .ok text)
    (hparse : Json.parse text = .ok x) :
    (Inputs.ofFile input).decode files = .ok (decodeFrom path 0 (recordsOf x)) := by
  have hvalues : (Inputs.ofFile input).values path text = .ok [x] := by
    rw [Inputs.values, parseText_eq_ok_iff.2 hparse]
    rfl
  rw [Inputs.decode_of_values rfl rfl rfl hresolve hread hvalues, List.flatMap_singleton]

/-- The outcomes of the JSON forms of records are the records. -/
theorem filterMap_decodeFrom (source : String) (index : Nat) (records : List Record) :
    (decodeFrom source index (records.map Record.toJson)).filterMap Decoded.record? = records := by
  induction records generalizing index with
  | nil => rfl
  | cons r records ih =>
    have hfirst : Decoded.record? ⟨source, index, .ok r⟩ = some r := rfl
    rw [List.map_cons, decodeFrom, Decode.record_toJson, List.filterMap_cons_some hfirst, ih]

/-- The text that a check writes, with or without a line break behind it, is read as the array it
was written for. -/
theorem parse_normalized {decoded : List Decoded}
    (h : ∀ r ∈ decoded.filterMap Decoded.record?, r.KeepsDuration) {blank : String}
    (hblank : blank = "" ∨ blank = "\n") :
    Json.parse ((normalized decoded).pretty ++ blank) = .ok (normalized decoded) := by
  apply Json.parse_pretty
  · refine .array (List.forall₂_map_left_iff.2 (List.forall₂_map_right_iff.2
      (List.forall₂_same.2 fun r hr => Decode.rereads_self (h r hr) _)))
  · refine .array fun x hx => ?_
    obtain ⟨r, -, rfl⟩ := List.mem_map.1 hx
    exact Decode.unique_toJson r
  · rcases hblank with rfl | rfl
    · exact nofun
    · exact List.forall_mem_cons.2 ⟨by decide, nofun⟩

end Check

namespace Command

open Check

/-- A check that normalizes passes on the text that another has written and writes it again: it
puts out the same text and reports as many records as had passed, and no other. -/
theorem normalize_idempotent [Filter.Library] {files : Files.FileSystem} {inputs : Inputs}
    {decoded : List Decoded} (hdecode : inputs.decode files = .ok decoded)
    (hdurations : ∀ d ∈ decoded, ∀ r ∈ d.record?, r.KeepsDuration)
    {files' : Files.FileSystem} {input path text blank : String}
    (hblank : blank = "" ∨ blank = "\n")
    (hwritten : (run files (.check inputs true none)).stdout = text ++ "\n")
    (hresolve : resolve files' input = .ok [path])
    (hread : files'.read path = .ok (text ++ blank)) :
    (∀ out, run files (.check inputs true out) = putOut files out text
      (decoded.map Decoded.line) [(Summary.ofDecoded decoded).line]
        ((Summary.ofDecoded decoded).failed == 0)) ∧
    ∃ again, (Inputs.ofFile input).decode files' = .ok again ∧
      again.filterMap Decoded.record? = decoded.filterMap Decoded.record? ∧
      Summary.ofDecoded again = ⟨(Summary.ofDecoded decoded).passed, 0⟩ ∧
      ∀ out, run files' (.check (Inputs.ofFile input) true out) = putOut files' out text
        (again.map Decoded.line) [(Summary.mk (Summary.ofDecoded decoded).passed 0).line] true := by
  have hrun (out : Option String) : run files (.check inputs true out) =
      putOut files out (normalized decoded).pretty (decoded.map Decoded.line)
        [(Summary.ofDecoded decoded).line] ((Summary.ofDecoded decoded).failed == 0) := by
    rw [run, runCheck, hdecode]
    rfl
  obtain rfl : (normalized decoded).pretty = text := by
    rw [hrun] at hwritten
    exact String.append_left_inj "\n" |>.1 hwritten
  refine ⟨hrun, ?_⟩
  have hkeeps : ∀ r ∈ decoded.filterMap Decoded.record?, r.KeepsDuration := by
    intro r hr
    obtain ⟨d, hd, hrecord⟩ := List.mem_filterMap.1 hr
    exact hdurations d hd r hrecord
  have hagain := Inputs.decode_ofFile hresolve hread (parse_normalized hkeeps hblank)
  generalize hrecords : decoded.filterMap Decoded.record? = records at *
  have hnormalized : normalized decoded = .array (records.map Record.toJson) := by
    rw [normalized, hrecords]
  rw [hnormalized] at hagain
  have hsame := filterMap_decodeFrom path 0 records
  have hsummary : Summary.ofDecoded (decodeFrom path 0 (records.map Record.toJson)) =
      ⟨(Summary.ofDecoded decoded).passed, 0⟩ := by
    have hpassed : (Summary.ofDecoded decoded).passed = records.length := by
      rw [Summary.ofDecoded_eq, ← length_records, hrecords]
    rw [Summary.ofDecoded_of_passed (by simp [hsame]), hpassed, length_decodeFrom, List.length_map]
  refine ⟨_, hagain, hsame, hsummary, ?_⟩
  intro out
  rw [run, runCheck, hagain]
  simp only [recordsOf, hsummary, normalized, hsame, hrecords]
  rfl

/-- One item of an array is a record, with its members out of order, and another is none. -/
theorem normalize_idempotent_one :
    let input := "[\x7b\"a_string\": \"x\\n\", \"__typename\": \"A\"\x7d, 7, " ++
      "\x7b\"__typename\": \"ComplexSegment\", \"value\": \"1\", \"duration\": 3, " ++
      "\"_core_type\": \"\"\x7d]"
    let inputs : Inputs := ⟨["in"], true, none, none⟩
    let files : Files.FileSystem := ⟨.directory [("in", .file (Json.bytesOf input))], [], []⟩
    let files' (text : String) : Files.FileSystem :=
      ⟨.directory [("out", .file (Json.bytesOf text))], [], []⟩
    ∃ decoded text, inputs.decode files = .ok decoded ∧ Summary.ofDecoded decoded = ⟨2, 1⟩ ∧
      run files (.check inputs true none) =
        ⟨.ok false, text ++ "\n", decoded.map Decoded.line ++ ["2 ok, 1 failed"], none, files⟩ ∧
      ∃ lines, run (files' text) (.check (Inputs.ofFile "out") true none) =
        ⟨.ok true, text ++ "\n", lines ++ ["2 ok, 0 failed"], none, files' text⟩ := by
  intro input inputs files files'
  have hload : (inputs.decode files).toOption.any (fun decoded =>
      Summary.ofDecoded decoded = ⟨2, 1⟩ ∧
        ∀ d ∈ decoded, ∀ r ∈ d.record?, r.KeepsDuration) = true := by decide +kernel
  obtain ⟨decoded, hdecode⟩ : ∃ decoded, inputs.decode files = .ok decoded := by
    cases hcase : inputs.decode files with
    | ok decoded => exact ⟨decoded, rfl⟩
    | error e => simp [hcase, Except.toOption] at hload
  rw [hdecode] at hload
  obtain ⟨hsummary, hdurations⟩ := of_decide_eq_true hload
  have hwritten : (run files (.check inputs true none)).stdout =
      (normalized decoded).pretty ++ "\n" := by
    rw [run, runCheck, hdecode]
    rfl
  have hread : (files' (normalized decoded).pretty).read "out" =
      .ok ((normalized decoded).pretty ++ "") := by
    have hnode : (files' (normalized decoded).pretty).node "out" =
      .ok (.file (Json.bytesOf (normalized decoded).pretty)) := rfl
    simp only [Files.FileSystem.read, hnode, Files.textOf?_bytesOf, String.append_empty]
  have hresolve : resolve (files' (normalized decoded).pretty) "out" = .ok ["out"] := rfl
  obtain ⟨hfirst, again, -, -, -, hsecond⟩ :=
    normalize_idempotent hdecode hdurations (.inl rfl) hwritten hresolve hread
  rw [hsummary] at hfirst hsecond
  exact ⟨decoded, _, hdecode, hsummary, hfirst none, again.map Decoded.line, hsecond none⟩

end Command
end RecordCheck
