import RecordCheck.Command.Run
import RecordCheck.Proofs.Check.Records
set_option autoImplicit false

/-!
# Check: inputs are independent

Each pattern is resolved as by itself and each source is loaded by itself, so what comes of two
lists of patterns, one behind the other, is what comes of each.  Main statement:
`Command.inputs_independent`.
-/

namespace RecordCheck

namespace Check

/-! ## Loading and decoding -/

namespace Inputs

/-- The inputs at other paths and patterns. -/
def withPatterns (inputs : Inputs) (patterns : List String) : Inputs :=
  { inputs with patterns := patterns }

variable [Filter.Library] (inputs : Inputs) (files : Files.FileSystem)

theorem sources_append (paths paths' : List String) :
    inputs.sources files (paths ++ paths') =
      joined (inputs.sources files paths) (inputs.sources files paths') := by
  refine append_eq_joined (inputs.sources files)
    (fun path => (inputs.source files path).map ([·])) rfl (fun path rest => ?_) paths paths'
  rw [sources]
  cases inputs.source files path with
  | error e => rfl
  | ok s => rfl

/-- Only the patterns tell which sources there are, and nothing else depends on them. -/
theorem load_withPatterns (patterns : List String) {loaded : List Source} :
    (inputs.withPatterns patterns).load files = .ok loaded ↔
      ∃ paths, resolveAll files patterns = .ok paths ∧ inputs.sources files paths = .ok loaded := by
  have hdocuments (path : String) (xs : List Json) :
      (inputs.withPatterns patterns).documents path xs = inputs.documents path xs := by
    induction xs with
    | nil => rfl
    | cons x xs ih =>
      rw [documents, documents, ih]
      rfl
  have hsource (path : String) :
      (inputs.withPatterns patterns).source files path = inputs.source files path := by
    simp only [source, documentsOf, hdocuments]
    rfl
  have hsources (paths : List String) :
      (inputs.withPatterns patterns).sources files paths = inputs.sources files paths := by
    induction paths with
    | nil => rfl
    | cons path paths ih => rw [sources, sources, ih, hsource]
  have hpatterns : (inputs.withPatterns patterns).patterns = patterns := rfl
  rw [load, hpatterns]
  cases resolveAll files patterns with
  | error e => simp
  | ok paths => simp [hsources]

theorem load_append_eq_ok_iff {xs ys : List String} {loaded : List Source} :
    (inputs.withPatterns (xs ++ ys)).load files = .ok loaded ↔
      ∃ first second, (inputs.withPatterns xs).load files = .ok first ∧
        (inputs.withPatterns ys).load files = .ok second ∧ loaded = first ++ second := by
  simp only [load_withPatterns, resolveAll_append, joined_eq_ok_iff]
  constructor
  · rintro ⟨_, ⟨paths, paths', hxs, hys, rfl⟩, hloaded⟩
    rw [sources_append, joined_eq_ok_iff] at hloaded
    obtain ⟨first, second, hfirst, hsecond, rfl⟩ := hloaded
    exact ⟨first, second, ⟨paths, hxs, hfirst⟩, ⟨paths', hys, hsecond⟩, rfl⟩
  · rintro ⟨first, second, ⟨paths, hxs, hfirst⟩, ⟨paths', hys, hsecond⟩, rfl⟩
    refine ⟨paths ++ paths', ⟨paths, paths', hxs, hys, rfl⟩, ?_⟩
    rw [sources_append, joined_eq_ok_iff]
    exact ⟨first, second, hfirst, hsecond, rfl⟩

theorem decode_append_eq_ok_iff {xs ys : List String} {decoded : List Decoded} :
    (inputs.withPatterns (xs ++ ys)).decode files = .ok decoded ↔
      ∃ first second, (inputs.withPatterns xs).decode files = .ok first ∧
        (inputs.withPatterns ys).decode files = .ok second ∧ decoded = first ++ second := by
  simp only [decode, Json.map_eq_ok_iff, load_append_eq_ok_iff]
  constructor
  · rintro ⟨_, ⟨first, second, hfirst, hsecond, rfl⟩, rfl⟩
    exact ⟨_, _, ⟨first, hfirst, rfl⟩, ⟨second, hsecond, rfl⟩, List.flatMap_append⟩
  · rintro ⟨_, _, ⟨first, hfirst, rfl⟩, ⟨second, hsecond, rfl⟩, rfl⟩
    exact ⟨first ++ second, ⟨first, second, hfirst, hsecond, rfl⟩, List.flatMap_append⟩

end Inputs

/-! ## Verdicts -/

theorem Summary.failed_append (first second : List Decoded) :
    (Summary.ofDecoded (first ++ second)).failed =
      (Summary.ofDecoded first).failed + (Summary.ofDecoded second).failed := by
  simp only [ofDecoded_eq, List.countP_append]

end Check

namespace Command

open Check Files

/-- Whether a text can be written does not depend on the text. -/
theorem write_any (files : Files.FileSystem) (path text text' : String) :
    (files.write path text).map (fun _ => ()) = (files.write path text').map fun _ => () := by
  unfold Files.FileSystem.write
  split
  · rfl
  · rfl
  · rfl
  · split <;> rfl

theorem writeFile_any (files : Files.FileSystem) (path text text' : String) :
    (writeFile files path text).2 = (writeFile files path text').2 := by
  unfold writeFile
  split
  · rfl
  · next made _ _ =>
    have hsame := write_any made path text text'
    cases hfirst : made.write path text with
    | error e =>
      rw [hfirst] at hsame
      cases hsecond : made.write path text' with
      | error e' =>
        rw [hsecond] at hsame
        obtain rfl := Except.error.inj hsame
        rfl
      | ok _ =>
        rw [hsecond] at hsame
        cases hsame
    | ok _ =>
      rw [hfirst] at hsame
      cases hsecond : made.write path text' with
      | error e' =>
        rw [hsecond] at hsame
        cases hsame
      | ok _ => rfl

/-- A text can be put out. -/
def CanPutOut (files : Files.FileSystem) (out : Option String) : Prop :=
  ∀ path ∈ out, (writeFile files path "").2 = .ok ()

theorem verdict_putOut_eq_ok_iff {files : Files.FileSystem} {out : Option String} {text : String}
    {stderr last : List String} {passed verdict : Bool} :
    (putOut files out text stderr last passed).verdict = .ok verdict ↔
      CanPutOut files out ∧ verdict = passed := by
  cases out with
  | none => simp [putOut, CanPutOut, eq_comm]
  | some path =>
    have hany := writeFile_any files path "" text
    simp only [CanPutOut, Option.mem_def, Option.some.injEq, forall_eq', hany, putOut]
    split
    · next hwritten =>
      rw [hwritten]
      exact iff_of_false nofun fun h => nomatch h.1
    · next hwritten =>
      rw [hwritten]
      simp [eq_comm]

section

variable [Filter.Library]

theorem verdict_runCheck_eq_ok_iff {files : Files.FileSystem} {inputs : Inputs} {normalize : Bool}
    {out : Option String} {verdict : Bool} :
    (runCheck files inputs normalize out).verdict = .ok verdict ↔
      ∃ decoded, inputs.decode files = .ok decoded ∧ (normalize = true → CanPutOut files out) ∧
        verdict = ((Summary.ofDecoded decoded).failed == 0) := by
  unfold runCheck
  split
  · next e hdecode => exact iff_of_false nofun fun ⟨_, h, _⟩ => nomatch hdecode.symm.trans h
  · next decoded hdecode =>
    have hdecoded {other : List Decoded} : inputs.decode files = .ok other ↔ other = decoded := by
      rw [hdecode, Except.ok.injEq, eq_comm]
    simp only [hdecoded, exists_eq_left]
    cases normalize with
    | false => simp [eq_comm]
    | true => simp [verdict_putOut_eq_ok_iff]

/-- What comes of two lists of patterns, one behind the other, is what comes of both: the paths, or
the first failure to resolve; the sources and the records, if both can be loaded; and a verdict that
all passed if all of both passed.  So a path always stands for itself alone, and a pattern stands
for the paths that it finds; it fails without any, whatever others find, and where it meets a
directory that cannot be listed. -/
theorem inputs_independent (files : Files.FileSystem) (inputs : Inputs) (xs ys : List String)
    (normalize : Bool) (out : Option String) :
    resolveAll files (xs ++ ys) = joined (resolveAll files xs) (resolveAll files ys) ∧
    (∀ text, Files.isPattern text = false → resolveAll files [text] = .ok [text]) ∧
    (∀ text pattern, Files.isPattern text = true → Files.Pattern.parse text = .ok pattern →
      (files.expand pattern = [] → resolveAll files [text] = .error (.noMatches text)) ∧
      (∀ path paths, files.expand pattern = (path :: paths).map .ok →
        resolveAll files [text] = .ok (path :: paths)) ∧
      ∀ before e after,
        files.expand pattern = List.map Except.ok before ++ Except.error e :: after →
        resolveAll files [text] = .error (.unreadable e.path e.error)) ∧
    (∀ loaded, (inputs.withPatterns (xs ++ ys)).load files = .ok loaded ↔
      ∃ first second, (inputs.withPatterns xs).load files = .ok first ∧
        (inputs.withPatterns ys).load files = .ok second ∧ loaded = first ++ second) ∧
    (∀ decoded, (inputs.withPatterns (xs ++ ys)).decode files = .ok decoded ↔
      ∃ first second, (inputs.withPatterns xs).decode files = .ok first ∧
        (inputs.withPatterns ys).decode files = .ok second ∧ decoded = first ++ second) ∧
    ∀ passed, (runCheck files (inputs.withPatterns (xs ++ ys)) normalize out).verdict = .ok passed ↔
      ∃ first second, (runCheck files (inputs.withPatterns xs) normalize out).verdict = .ok first ∧
        (runCheck files (inputs.withPatterns ys) normalize out).verdict = .ok second ∧
        passed = (first && second) := by
  simp only [resolveAll_singleton]
  refine ⟨resolveAll_append files xs ys, fun text => resolve_literal,
    fun text pattern hpattern hparse => ⟨fun hnone => ?_, fun path paths hfound => ?_,
      fun before e after hfound => resolve_of_error hpattern hparse hfound⟩,
    fun loaded => inputs.load_append_eq_ok_iff files,
    fun decoded => inputs.decode_append_eq_ok_iff files, fun passed => ?_⟩
  · exact @resolve_of_paths _ _ _ hpattern hparse [] hnone
  · exact resolve_of_paths hpattern hparse hfound
  have hpassed (first second : List Decoded) :
      ((Summary.ofDecoded (first ++ second)).failed == 0) =
        ((Summary.ofDecoded first).failed == 0 && (Summary.ofDecoded second).failed == 0) := by
    rw [Summary.failed_append, Bool.eq_iff_iff]
    simp only [Bool.and_eq_true, beq_iff_eq]
    omega
  simp only [verdict_runCheck_eq_ok_iff, Inputs.decode_append_eq_ok_iff]
  constructor
  · rintro ⟨_, ⟨first, second, hfirst, hsecond, rfl⟩, hout, rfl⟩
    exact ⟨_, _, ⟨first, hfirst, hout, rfl⟩, ⟨second, hsecond, hout, rfl⟩, hpassed first second⟩
  · rintro ⟨_, _, ⟨first, hfirst, hout, rfl⟩, ⟨second, hsecond, -, rfl⟩, rfl⟩
    exact ⟨first ++ second, ⟨first, second, hfirst, hsecond, rfl⟩, hout,
      (hpassed first second).symm⟩

end

/-- A pattern that finds two records, a path, a pattern that finds nothing and one for a directory
that cannot be listed. -/
theorem inputs_independent_mixed :
    let files : FileSystem := ⟨.directory [
      ("in", .directory [("ab", .file (Json.bytesOf "[7, 8]"))]),
      ("c", .file (Json.bytesOf "true")), ("shut", .directory [])], [], [["shut"]]⟩
    let inputs : Inputs := ⟨[], false, none, none⟩
    resolveAll files (["in/*"] ++ ["c"]) = .ok ["in/ab", "c"] ∧
    resolveAll files (["in/*"] ++ ["in/?"]) = .error (.noMatches "in/?") ∧
    resolveAll files (["in/*"] ++ ["shut/*"]) = .error (.unreadable "shut" .permissionDenied) ∧
    ∃ decoded, (inputs.withPatterns (["in/*"] ++ ["c"])).decode files = .ok decoded ∧
      decoded.map (fun d => (d.source, d.index)) = [("in/ab", 0), ("in/ab", 1), ("c", 0)] := by
  intro files inputs
  have hroot : files.node? "." = some files.root := rfl
  have hfound {tokens : List Token} (hpoints : (Component.wild tokens).points = []) :
      files.expand ⟨false, [.literal "in", .wild tokens], false⟩ =
        if matchesAll tokens "ab".toList then [.ok "in/ab"] else [] := by
    have hlisted : files.refusal? "in" = none := by decide +kernel
    rw [FileSystem.expand]
    simp only [Bool.false_eq_true, if_false, hroot]
    rw [FileSystem.within_literal files false _ rfl rfl, FileSystem.at]
    refine (FileSystem.within_wild files false [] rfl hlisted hpoints).trans ?_
    simp [Node.sortedEntries, FileSystem.entry, Component.matchesName, FileSystem.at, found]
    rfl
  have hsome : files.expand ⟨false, [.literal "in", .wild [.anyText]], false⟩ =
      [.ok "in/ab"] := by
    rw [hfound rfl]
    simp [matchesAll]
  have hnone : files.expand ⟨false, [.literal "in", .wild [.anyChar]], false⟩ = [] := by
    rw [hfound rfl]
    simp [matchesAll]
  have hshut : files.expand ⟨false, [.literal "shut", .wild [.anyText]], false⟩ =
      [.error ⟨"shut", .permissionDenied⟩] := by
    have hrefused : files.refusal? "shut" = some ⟨"shut", .permissionDenied⟩ := by decide +kernel
    rw [FileSystem.expand]
    simp only [Bool.false_eq_true, if_false, hroot]
    rw [FileSystem.within_literal files false _ rfl rfl, FileSystem.at]
    exact FileSystem.within_refused files false [] rfl hrefused
  obtain ⟨happend, hpath, hpattern, -, hdecode, -⟩ :=
    inputs_independent files inputs ["in/*"] ["c"] false none
  have hfirst := (hpattern "in/*" _ rfl rfl).2.1 "in/ab" [] hsome
  have hsecond := hpath "c" rfl
  refine ⟨?_, ?_, ?_, _, (hdecode _).2 ⟨[⟨"in/ab", 0, Decode.record (.integer 7)⟩,
    ⟨"in/ab", 1, Decode.record (.integer 8)⟩], [⟨"c", 0, Decode.record (.bool true)⟩],
    ?_, rfl, rfl⟩, rfl⟩
  · rw [happend, hfirst, hsecond]
    rfl
  · rw [(inputs_independent files inputs ["in/*"] ["in/?"] false none).1, hfirst,
      (hpattern "in/?" _ rfl rfl).1 hnone]
    rfl
  · rw [(inputs_independent files inputs ["in/*"] ["shut/*"] false none).1, hfirst,
      (hpattern "shut/*" _ rfl rfl).2.2 [] _ [] hshut]
    rfl
  · have hpatterns : (inputs.withPatterns ["in/*"]).patterns = ["in/*"] := rfl
    rw [Inputs.decode, Inputs.load, hpatterns, hfirst]
    rfl

end Command
end RecordCheck
