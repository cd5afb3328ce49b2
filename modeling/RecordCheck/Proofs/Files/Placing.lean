import RecordCheck.Proofs.Table
import RecordCheck.Proofs.Text.Encoding
import RecordCheck.Files.Tree
set_option autoImplicit false

/-!
# Files: what stands where

A tree is known by what stands at each location: nothing, a directory, or a file with its bytes.  To
put a node where a directory stands around it changes what stands there and nothing else
(`FileSystem.stands_put`).  A path leads to its place, which its form alone tells, and so a file
that is written is read back (`FileSystem.read_of_write`), and directories that are made stand at
the places of paths that lead there (`FileSystem.makeDirectories_extends`).
-/

namespace RecordCheck.Files

/-- What stands at a location. -/
inductive Thing where
  | directory
  | file (content : Bytes)
  deriving DecidableEq, Repr, Inhabited

/-! ## Nodes -/

namespace Node

/-- What a node is, whatever it holds. -/
def thing : Node → Thing
  | .file content => .file content
  | .directory _ => .directory

theorem find?_cons (name : String) (rest : Location) (entries : List (String × Node)) :
    (Node.directory entries).find? (name :: rest) =
      (Table.find? name entries).bind (Node.find? rest) := by
  rw [find?]
  cases Table.find? name entries with
  | none => rfl
  | some node => rfl

theorem find?_append (location rest : Location) (node : Node) :
    node.find? (location ++ rest) = (node.find? location).bind (Node.find? rest) := by
  induction location generalizing node with
  | nil => rfl
  | cons name location ih =>
    cases node with
    | file content => rfl
    | directory entries =>
      rw [List.cons_append, find?_cons, find?_cons]
      cases Table.find? name entries with
      | none => rfl
      | some node => exact ih node

theorem find?_put_cons (new : Node) (d : String) (location : Location)
    (entries : List (String × Node)) (name : String) (rest : Location) :
    (put new (d :: location) (.directory entries)).find? (name :: rest) =
      if name = d then
        (put new location ((Table.find? d entries).getD (.directory []))).find? rest
      else (Node.directory entries).find? (name :: rest) := by
  rw [put, find?_cons, find?_cons, Table.find?_insert]
  split_ifs
  · rfl
  · rfl

/-- Where a directory stands around it, a node without entries is put without a change to what
stands anywhere else. -/
theorem thing_put {new : Node} (hnew : ∀ n rest, new.find? (n :: rest) = none)
    {directory : Location} {name : String} {node : Node} {entries : List (String × Node)}
    (hdirectory : node.find? directory = some (.directory entries))
    (hold : ∀ inner, Table.find? name entries ≠ some (.directory inner)) (location : Location) :
    ((put new (directory ++ [name]) node).find? location).map thing =
      if location = directory ++ [name] then some new.thing
      else (node.find? location).map thing := by
  induction directory generalizing node location with
  | nil =>
    obtain rfl : node = .directory entries := Option.some.inj hdirectory
    cases location with
    | nil => rfl
    | cons n rest =>
      rw [List.nil_append, find?_put_cons, put]
      by_cases hn : n = name
      · subst hn
        rw [if_pos rfl]
        cases rest with
        | nil => simp [find?]
        | cons n' rest =>
          -- Behind the name nothing stands, neither before nor after.
          have hnone : (Node.directory entries).find? (n :: n' :: rest) = none := by
            rw [find?_cons]
            cases hfound : Table.find? n entries with
            | none => rfl
            | some old =>
              cases old with
              | file content => rfl
              | directory inner => exact absurd hfound (hold inner)
          simp [hnew, hnone]
      · simp [hn]
  | cons d directory ih =>
    cases node with
    | file content => exact nomatch hdirectory
    | directory outer =>
      rw [find?_cons] at hdirectory
      obtain ⟨child, hchild, hinner⟩ := Option.bind_eq_some_iff.1 hdirectory
      cases location with
      | nil => rfl
      | cons n rest =>
        rw [List.cons_append, find?_put_cons, hchild, Option.getD_some]
        by_cases hn : n = d
        · subst hn
          rw [if_pos rfl, find?_cons, hchild, Option.bind_some, ih hinner]
          simp
        · simp [hn]

end Node

/-! ## Trees -/

namespace FileSystem

variable {files made : FileSystem}

/-- What stands at a location of the tree. -/
def stands (files : FileSystem) (location : Location) : Option Thing :=
  (files.root.find? location).map Node.thing

theorem stands_eq_directory_iff {location : Location} :
    files.stands location = some .directory ↔
      ∃ entries, files.root.find? location = some (.directory entries) := by
  rw [stands]
  cases files.root.find? location with
  | none => exact iff_of_false nofun nofun
  | some node =>
    cases node with
    | file content => exact iff_of_false nofun nofun
    | directory entries => exact iff_of_true rfl ⟨entries, rfl⟩

theorem find?_eq_of_stands_file {location : Location} {content : Bytes}
    (h : files.stands location = some (.file content)) :
    files.root.find? location = some (.file content) := by
  rw [stands] at h
  cases hnode : files.root.find? location with
  | none =>
    rw [hnode] at h
    exact nomatch h
  | some node =>
    rw [hnode] at h
    cases node with
    | file content' =>
      obtain rfl := Thing.file.inj (Option.some.inj h)
      rfl
    | directory entries => exact nomatch h

/-- A node without entries is put where a directory stands around it and none in its place; nothing
else changes. -/
theorem stands_put {new : Node} (hnew : ∀ n rest, new.find? (n :: rest) = none)
    {directory : Location} {name : String}
    (hdirectory : files.stands directory = some .directory)
    (hold : files.stands (directory ++ [name]) ≠ some .directory) (location : Location) :
    (files.put (directory ++ [name]) new).stands location =
      if location = directory ++ [name] then some new.thing else files.stands location := by
  obtain ⟨entries, hentries⟩ := stands_eq_directory_iff.1 hdirectory
  refine Node.thing_put hnew hentries (fun inner hinner => hold ?_) location
  refine stands_eq_directory_iff.2 ⟨inner, ?_⟩
  rw [Node.find?_append, hentries, Option.bind_some, Node.find?_cons, hinner]
  rfl

end FileSystem

/-! ## Paths -/

/-- The location that a name leads to from another by its form. -/
def Location.advance (location : Location) (name : String) : Location :=
  if isIdle name then location
  else if name = ".." then location.dropLast
  else location ++ [name]

theorem Location.advance_of_entry {location : Location} {name : String}
    (hidle : isIdle name = false) (hup : name ≠ "..") :
    location.advance name = location ++ [name] := by
  rw [advance, hidle, if_neg Bool.false_ne_true, if_neg hup]

/-- Empty names lead nowhere else. -/
theorem Location.foldl_advance_empty {blanks : List String} (h : ∀ blank ∈ blanks, blank = "")
    (location : Location) : blanks.foldl advance location = location := by
  induction blanks with
  | nil => rfl
  | cons blank blanks ih =>
    obtain ⟨rfl, hothers⟩ := List.forall_mem_cons.1 h
    exact ih hothers

/-- The last piece is empty only behind a separator. -/
theorem getLast?_pieces {separator : Char} {cs : List Char} (hlast : cs.getLast? ≠ some separator)
    (hcs : cs ≠ []) : ∃ c before, (Text.pieces separator cs).getLast? = some (c :: before) := by
  induction cs with
  | nil => exact absurd rfl hcs
  | cons c cs ih =>
    rw [Text.pieces]
    cases cs with
    | nil =>
      have hc : c ≠ separator := fun h => hlast (congrArg some h)
      rw [if_neg hc]
      exact ⟨c, [], rfl⟩
    | cons c' cs =>
      rw [List.getLast?_cons_cons] at hlast
      obtain ⟨d, before, hpieces⟩ := ih hlast (List.cons_ne_nil _ _)
      cases hothers : Text.pieces separator (c' :: cs) with
      | nil =>
        rw [hothers] at hpieces
        exact nomatch hpieces
      | cons first others =>
        rw [hothers] at hpieces
        split_ifs with hc
        · exact ⟨d, before, by rw [List.getLast?_cons_cons, hpieces]⟩
        · cases others with
          | nil => exact ⟨c, first, rfl⟩
          | cons second others =>
            simp only [List.getLast?_cons_cons] at hpieces ⊢
            exact ⟨d, before, hpieces⟩

/-- A path that does not end with a slash has no empty name at its end. -/
theorem eq_nil_of_not_endsOpen {path : String} (hpath : path ≠ "") (hopen : endsOpen path = false)
    {before blanks : List String} {name : String} (hnames : names path = before ++ name :: blanks)
    (hblanks : ∀ blank ∈ blanks, blank = "") : blanks = [] := by
  have hlast : path.toList.getLast? ≠ some '/' := by
    intro hslash
    rw [endsOpen, hslash] at hopen
    exact nomatch hopen
  have hnonempty : path.toList ≠ [] := fun hnil => hpath (String.toList_inj.1 hnil)
  obtain ⟨c, chars, hpieces⟩ := getLast?_pieces hlast hnonempty
  have hlastName : (names path).getLast? = some (String.ofList (c :: chars)) := by
    rw [names, List.getLast?_map, hpieces]
    rfl
  rw [hnames, List.getLast?_append_cons] at hlastName
  by_contra hblank
  have hmem : String.ofList (c :: chars) ∈ blanks := by
    rw [List.getLast?_cons_of_ne_nil hblank] at hlastName
    exact List.mem_of_getLast? hlastName
  have hempty := congrArg String.toList (hblanks _ hmem)
  rw [String.toList_ofList] at hempty
  exact List.cons_ne_nil c chars hempty

theorem withoutIdle_suffix (reversed : List String) : withoutIdle reversed <:+ reversed := by
  fun_induction withoutIdle reversed with
  | case1 => exact List.suffix_rfl
  | case2 => exact List.suffix_rfl
  | case3 last before _ _ ih => exact ih.trans (List.suffix_cons last before)
  | case4 => exact List.suffix_rfl

theorem parentNames?_suffix {reversed parent : List String}
    (h : parentNames? reversed = some parent) : parent <:+ reversed := by
  have hcut := withoutIdle_suffix reversed
  unfold parentNames? at h
  split at h
  · exact nomatch h
  · split at h
    · exact nomatch h
    · obtain rfl := Option.some.inj h
      exact List.nil_suffix
  · next last before _ heq =>
    obtain rfl := Option.some.inj h
    rw [heq] at hcut
    exact (withoutIdle_suffix before).trans ((List.suffix_cons last before).trans hcut)

namespace FileSystem

variable {files made : FileSystem} {path : String}

theorem step_eq_ok_iff {location next : Location} {name : String} :
    files.step location name = .ok next ↔ files.stands location = some .directory ∧
      next = location.advance name ∧ (isIdle name = false → name ≠ ".." →
        name.utf8ByteSize ≤ nameLimit ∧ (files.stands (location ++ [name])).isSome) := by
  rw [stands_eq_directory_iff, step]
  cases hnode : files.root.find? location with
  | none => exact iff_of_false nofun fun ⟨⟨_, h⟩, _⟩ => nomatch h
  | some node =>
    cases node with
    | file content => exact iff_of_false nofun fun ⟨⟨_, h⟩, _⟩ => nomatch h
    | directory entries =>
      have hentry : (files.stands (location ++ [name])).isSome =
          (Table.find? name entries).isSome := by
        rw [stands, Node.find?_append, hnode, Option.bind_some, Node.find?_cons, Option.isSome_map]
        cases Table.find? name entries with
        | none => rfl
        | some node => rfl
      rw [hentry, Location.advance]
      simp only [Option.some.injEq, Node.directory.injEq, exists_eq', true_and]
      split_ifs with hidle hup hlong hfound
      · exact ⟨fun h => ⟨(Except.ok.inj h).symm, fun hnot => absurd hidle (by simp [hnot])⟩,
          fun h => congrArg Except.ok h.1.symm⟩
      · exact ⟨fun h => ⟨(Except.ok.inj h).symm, fun _ hnot => absurd hup hnot⟩,
          fun h => congrArg Except.ok h.1.symm⟩
      · simp [hidle, hup, hlong]
      · exact ⟨fun h => ⟨(Except.ok.inj h).symm, fun _ _ => ⟨not_lt.1 hlong, hfound⟩⟩,
          fun h => congrArg Except.ok h.1.symm⟩
      · simp [hidle, hup, hfound]

theorem follow_eq_foldl {location next : Location} {names : List String}
    (h : files.follow location names = .ok next) :
    next = names.foldl Location.advance location := by
  induction names generalizing location with
  | nil => exact (Except.ok.inj h).symm
  | cons name names ih =>
    rw [follow] at h
    cases hstep : files.step location name with
    | error e =>
      rw [hstep] at h
      exact nomatch h
    | ok between =>
      rw [hstep] at h
      obtain rfl := (step_eq_ok_iff.1 hstep).2.1
      exact ih h

theorem follow_append (location : Location) (names names' : List String) :
    files.follow location (names ++ names') =
      match files.follow location names with
      | .error e => .error e
      | .ok between => files.follow between names' := by
  induction names generalizing location with
  | nil => rfl
  | cons name names ih =>
    rw [List.cons_append, follow, follow]
    cases files.step location name with
    | error e => rfl
    | ok between => exact ih between

/-- Everything is still there, and what was a directory is one. -/
structure Keeps (files made : FileSystem) : Prop where
  here : made.here = files.here
  directory : ∀ location, files.stands location = some .directory →
    made.stands location = some .directory
  thing : ∀ location, (files.stands location).isSome → (made.stands location).isSome

/-- What could be followed still can. -/
theorem Keeps.follow (h : Keeps files made) {location next : Location} {names : List String}
    (hfollow : files.follow location names = .ok next) :
    made.follow location names = .ok next := by
  induction names generalizing location with
  | nil => exact hfollow
  | cons name names ih =>
    rw [FileSystem.follow] at hfollow ⊢
    cases hstep : files.step location name with
    | error e =>
      rw [hstep] at hfollow
      exact nomatch hfollow
    | ok between =>
      rw [hstep] at hfollow
      obtain ⟨hdirectory, hnext, hname⟩ := step_eq_ok_iff.1 hstep
      have hmade : made.step location name = .ok between :=
        step_eq_ok_iff.2 ⟨h.directory _ hdirectory, hnext, fun hidle hup =>
          (hname hidle hup).imp_right (h.thing _)⟩
      rw [hmade]
      exact ih hfollow

theorem start_congr (h : made.here = files.here) (path : String) :
    made.start path = files.start path := by
  rw [start, start, h]

theorem place_congr (h : made.here = files.here) (path : String) :
    made.place path = files.place path := by
  rw [place, place, h]

theorem start_eq_ok {location : Location} (h : files.start path = .ok location) :
    path ≠ "" ∧ location = if isAbsolute path then [] else files.here := by
  rw [start] at h
  rcases ite_eq_iff.1 h with ⟨-, herror⟩ | ⟨-, h⟩
  · exact nomatch herror
  rcases ite_eq_iff.1 h with ⟨-, herror⟩ | ⟨hempty, h⟩
  · exact nomatch herror
  rcases ite_eq_iff.1 h with ⟨-, herror⟩ | ⟨-, h⟩
  · exact nomatch herror
  refine ⟨fun hpath => hempty ?_, (Except.ok.inj h).symm⟩
  rw [hpath]
  rfl

/-- The path leads to an entry of a directory: its names but the last lead to the directory, and
only empty names follow the last. -/
structure Enters (files : FileSystem) (path : String) (directory : Location) (name : String) :
    Prop where
  leads : ∃ location before blanks, files.start path = .ok location ∧
    names path = before ++ name :: blanks ∧ (∀ blank ∈ blanks, blank = "") ∧
    files.follow location before = .ok directory
  stands : files.stands directory = some .directory
  notIdle : isIdle name = false
  notUp : name ≠ ".."
  short : name.utf8ByteSize ≤ nameLimit

/-- A new node would stand where its path leads. -/
theorem enters_of_target {directory : Location} {name : String} {openEnd : Bool}
    (h : files.target path = .ok ⟨directory, some name, openEnd⟩) :
    files.Enters path directory name ∧ openEnd = endsOpen path := by
  rw [target] at h
  cases hstart : files.start path with
  | error e =>
    rw [hstart] at h
    exact nomatch h
  | ok location =>
    simp only [hstart] at h
    split at h
    · exact nomatch (Target.mk.inj (Except.ok.inj h)).2.1
    next last before hnames =>
    cases hfollow : files.follow location before.reverse with
    | error e =>
      simp only [hfollow] at h
      exact nomatch h
    | ok around =>
      simp only [hfollow] at h
      cases hstep : files.step around "" with
      | error e =>
        simp only [hstep] at h
        exact nomatch h
      | ok _ =>
        simp only [hstep] at h
        split_ifs at h with hpoints hlong
        · exact nomatch (Target.mk.inj (Except.ok.inj h)).2.1
        obtain ⟨rfl, hname, hopen⟩ := Target.mk.inj (Except.ok.inj h)
        obtain rfl := Option.some.inj hname
        rw [not_or] at hpoints
        have hempty : last ≠ "" := by
          have hhead := List.head?_dropWhile_not (· == "") (names path).reverse
          rw [hnames] at hhead
          simpa using hhead
        refine ⟨⟨⟨location, before.reverse, ((names path).reverse.takeWhile (· == "")).reverse,
          hstart, ?_, ?_, hfollow⟩, (step_eq_ok_iff.1 hstep).1, ?_, hpoints.2, not_lt.1 hlong⟩,
          hopen.symm⟩
        · apply List.reverse_injective
          have hsplit := (List.takeWhile_append_dropWhile (p := (· == ""))
            (l := (names path).reverse)).symm
          rw [hnames] at hsplit
          simpa using hsplit
        · intro blank hblank
          simpa using List.mem_takeWhile_imp (List.mem_reverse.1 hblank)
        · simp [isIdle, hempty, hpoints.1]

/-- The entry is at the place of the path. -/
theorem Enters.place_eq {directory : Location} {name : String}
    (h : files.Enters path directory name) : directory ++ [name] = files.place path := by
  obtain ⟨location, before, blanks, hstart, hnames, hblanks, hfollow⟩ := h.leads
  have hplace : files.place path = (names path).foldl Location.advance location := by
    rw [(start_eq_ok hstart).2]
    rfl
  rw [hplace, hnames, List.foldl_append, ← follow_eq_foldl hfollow, List.foldl_cons,
    Location.advance_of_entry h.notIdle h.notUp, Location.foldl_advance_empty hblanks]

/-- Once something stands there, the path leads to it, unless a slash ends the path. -/
theorem Enters.locate {directory : Location} {name : String}
    (h : files.Enters path directory name) (hopen : endsOpen path = false)
    (hkeeps : Keeps files made) (hmade : (made.stands (directory ++ [name])).isSome) :
    made.locate path = .ok (directory ++ [name]) := by
  obtain ⟨location, before, blanks, hstart, hnames, hblanks, hfollow⟩ := h.leads
  obtain rfl : blanks = [] :=
    eq_nil_of_not_endsOpen (start_eq_ok hstart).1 hopen hnames hblanks
  have hstep : made.step directory name = .ok (directory ++ [name]) :=
    step_eq_ok_iff.2 ⟨hkeeps.directory _ h.stands,
      (Location.advance_of_entry h.notIdle h.notUp).symm, fun _ _ => ⟨h.short, hmade⟩⟩
  rw [FileSystem.locate, start_congr hkeeps.here, hstart]
  simp only [hnames, follow_append, hkeeps.follow hfollow, follow, hstep]

end FileSystem

/-! ## Making and writing -/

/-- A file that was written with a text has that text. -/
theorem textOf?_bytesOf (s : String) :
    FileSystem.textOf? (Json.bytesOf s) = some s := by
  rw [FileSystem.textOf?, Text.bytesOf_eq, Text.fromUTF8?_utf8, String.ofList_toList]

theorem read_of_node {files : FileSystem} {path text : String}
    (h : files.node path = .ok (.file (Json.bytesOf text))) : files.read path = .ok text := by
  simp only [FileSystem.read, h, textOf?_bytesOf]

namespace FileSystem

variable {files made : FileSystem} {path : String} {at' at'' : Location → Prop}

/-- Nothing is changed, but that directories are new where nothing stood. -/
structure Extends (files : FileSystem) (at' : Location → Prop) (made : FileSystem) : Prop where
  here : made.here = files.here
  unlisted : made.unlisted = files.unlisted
  each : ∀ location, made.stands location = files.stands location ∨
    files.stands location = none ∧ made.stands location = some .directory ∧ at' location

theorem Extends.refl (files : FileSystem) (at' : Location → Prop) : files.Extends at' files :=
  ⟨rfl, rfl, fun _ => .inl rfl⟩

theorem Extends.mono (h : files.Extends at' made) (hat : ∀ location, at' location → at'' location) :
    files.Extends at'' made :=
  ⟨h.here, h.unlisted, fun location => (h.each location).imp_right fun ⟨hnone, hnew, hplace⟩ =>
    ⟨hnone, hnew, hat location hplace⟩⟩

theorem Extends.trans {after : FileSystem} (h : files.Extends at' made)
    (h' : made.Extends at' after) : files.Extends at' after := by
  refine ⟨h'.here.trans h.here, h'.unlisted.trans h.unlisted, fun location => ?_⟩
  rcases h'.each location with hsame' | ⟨hnone', hnew', hplace'⟩
  · rw [hsame']
    exact h.each location
  · rcases h.each location with hsame | ⟨-, hnew, -⟩
    · exact .inr ⟨hsame ▸ hnone', hnew', hplace'⟩
    · exact nomatch hnew.symm.trans hnone'

theorem makeDirectory_extends (h : files.makeDirectory path = .ok made) :
    files.Extends (· = files.place path) made := by
  unfold makeDirectory at h
  split at h
  · exact nomatch h
  · exact nomatch h
  next directory name openEnd htarget =>
  split at h
  · exact nomatch h
  next hnone =>
  obtain rfl := Except.ok.inj h
  have henters := (enters_of_target htarget).1
  have hfree : files.stands (directory ++ [name]) = none := by
    rw [stands, hnone]
    rfl
  have hput : ∀ location, (files.put (directory ++ [name]) (.directory [])).stands location =
      if location = directory ++ [name] then some .directory else files.stands location :=
    stands_put (fun _ _ => rfl) henters.stands (by rw [hfree]; exact nofun)
  refine ⟨rfl, rfl, fun location => ?_⟩
  rw [hput]
  split_ifs with hlocation
  · subst hlocation
    exact .inr ⟨hfree, rfl, henters.place_eq⟩
  · exact .inl rfl

theorem ensureDirectory_extends (h : files.ensureDirectory path = .ok made) :
    files.Extends (· = files.place path) made := by
  unfold ensureDirectory at h
  split at h
  next hmade =>
    obtain rfl := Except.ok.inj h
    exact makeDirectory_extends hmade
  · split_ifs at h
    obtain rfl := Except.ok.inj h
    exact .refl _ _

/-- The location is the place of the path that names write, the last one first, or of one that leads
there. -/
def LeadsTo (files : FileSystem) (reversed : List String) (location : Location) : Prop :=
  ∃ lead, lead <:+ reversed ∧ location = files.place (ofReversed lead)

theorem LeadsTo.mono {parent reversed : List String} (hparent : parent <:+ reversed)
    {location : Location} (h : files.LeadsTo parent location) :
    files.LeadsTo reversed location := by
  obtain ⟨lead, hlead, hplace⟩ := h
  exact ⟨lead, hlead.trans hparent, hplace⟩

/-- Directories are made at the places of paths that lead to the one that is wanted, whether or not
that can be made in the end. -/
theorem makeDirectories_extends (files : FileSystem) (reversed : List String) :
    files.Extends (files.LeadsTo reversed) (files.makeDirectories reversed).1 := by
  have hself {made : FileSystem} (hhere : made.here = files.here) (names : List String)
      (location : Location) (h : location = made.place (ofReversed names)) :
      files.LeadsTo names location :=
    ⟨names, List.suffix_rfl, h.trans (place_congr hhere _)⟩
  fun_induction makeDirectories files reversed with
  | case1 => exact .refl _ _
  | case2 reversed path _ made hmade =>
    exact (makeDirectory_extends hmade).mono (hself rfl reversed)
  | case3 => exact .refl _ _
  | case4 reversed path _ _ parent hparent made e hfailed ih =>
    rw [hfailed] at ih
    exact ih.mono fun location => .mono (parentNames?_suffix hparent)
  | case5 reversed path _ _ parent hparent made _ hmade e _ ih =>
    rw [hmade] at ih
    exact ih.mono fun location => .mono (parentNames?_suffix hparent)
  | case6 reversed path _ _ parent hparent made _ hmade after hafter ih =>
    rw [hmade] at ih
    have hbefore := ih.mono fun location => LeadsTo.mono (parentNames?_suffix hparent)
    exact hbefore.trans ((ensureDirectory_extends hafter).mono (hself ih.here reversed))
  | case7 => exact .refl _ _

/-- A file that is put where no directory stands leaves all directories as they were. -/
theorem keeps_put {directory : Location} {name : String}
    (hdirectory : files.stands directory = some .directory)
    (hold : files.stands (directory ++ [name]) ≠ some .directory) (content : Bytes) :
    Keeps files (files.put (directory ++ [name]) (.file content)) := by
  have hput : ∀ location, (files.put (directory ++ [name]) (.file content)).stands location =
      if location = directory ++ [name] then some (.file content) else files.stands location :=
    stands_put (fun _ _ => rfl) hdirectory hold
  refine ⟨rfl, fun location hlocation => ?_, fun location hlocation => ?_⟩
  · have hother : location ≠ directory ++ [name] := fun heq => hold (heq ▸ hlocation)
    rw [hput, if_neg hother, hlocation]
  · rw [hput]
    split_ifs
    · rfl
    · exact hlocation

/-- Writing changes what stands at the place of the path, and the text is read back from there. -/
theorem read_of_write {text : String} (h : files.write path text = .ok made) :
    made.here = files.here ∧ made.unlisted = files.unlisted ∧ (∀ location, made.stands location =
      if location = files.place path then some (.file (Json.bytesOf text))
      else files.stands location) ∧ made.read path = .ok text := by
  unfold write at h
  split at h
  · exact nomatch h
  · exact nomatch h
  · exact nomatch h
  next directory name htarget =>
  obtain ⟨henters, hopen⟩ := enters_of_target htarget
  obtain ⟨hold, rfl⟩ : files.stands (directory ++ [name]) ≠ some .directory ∧
      files.put (directory ++ [name]) (.file (Json.bytesOf text)) = made := by
    split at h
    · exact nomatch h
    next hold =>
    refine ⟨fun hnot => ?_, Except.ok.inj h⟩
    obtain ⟨entries, hentries⟩ := stands_eq_directory_iff.1 hnot
    exact hold entries hentries
  have hput : ∀ location,
      (files.put (directory ++ [name]) (.file (Json.bytesOf text))).stands location =
        if location = directory ++ [name] then some (.file (Json.bytesOf text))
        else files.stands location := stands_put (fun _ _ => rfl) henters.stands hold
  have hself := (hput (directory ++ [name])).trans (if_pos rfl)
  refine ⟨rfl, rfl, henters.place_eq ▸ hput, read_of_node ?_⟩
  rw [node, henters.locate hopen.symm (keeps_put henters.stands hold _) (by rw [hself]; rfl)]
  simp only [find?_eq_of_stands_file hself]

end FileSystem
end RecordCheck.Files
