-- The law of folders: every file below a folder is met once, by names that lead to no other file.
-- Sorted by these names, the grammar sources stand in an order that no longer tells in which order
-- the folders listed them.
import Mathlib.Data.List.Sort
import Mathlib.Data.String.Basic
import TextGrammar.Report

namespace TextGrammar

/-! ## Parts of a text -/

section Parts

open String

variable (c : Char) (before part rest : List Char) (parts : List String)

/-- At the end of the text the part that was being read is the last one. -/
theorem splitOnAux_end :
    splitOnAux (ofList (before ++ part ++ [])) (singleton c) ⟨utf8Len before⟩
        ⟨utf8Len before + utf8Len part⟩ 0 parts = parts.reverse ++ [ofList part] := by
  have hend : Pos.Raw.atEnd (ofList (before ++ part ++ [])) ⟨utf8Len before + utf8Len part⟩ =
      true := by simp [atEnd_iff, -ofList_append]
  rw [splitOnAux, if_pos hend, extract_of_valid before part [], List.reverse_cons]

/-- One character further: at a separator a part ends and the next one begins, any other character
belongs to the part that is being read. -/
theorem splitOnAux_cons (d : Char) :
    splitOnAux (ofList (before ++ part ++ d :: rest)) (singleton c) ⟨utf8Len before⟩
        ⟨utf8Len before + utf8Len part⟩ 0 parts =
      if d = c then
        splitOnAux (ofList (before ++ part ++ d :: rest)) (singleton c)
          ⟨utf8Len before + utf8Len part + d.utf8Size⟩
          ⟨utf8Len before + utf8Len part + d.utf8Size⟩ 0 (ofList part :: parts)
      else
        splitOnAux (ofList (before ++ part ++ d :: rest)) (singleton c) ⟨utf8Len before⟩
          ⟨utf8Len before + utf8Len part + d.utf8Size⟩ 0 parts := by
  have hmore : ¬ Pos.Raw.atEnd (ofList (before ++ part ++ d :: rest))
      ⟨utf8Len before + utf8Len part⟩ = true := by
    have := d.utf8Size_pos
    simp only [atEnd_iff, rawEndPos_ofList, Pos.Raw.mk_le_mk, utf8Len_append, utf8Len_cons]
    omega
  have hget := get_of_valid (before ++ part) (d :: rest)
  have hnext := next_of_valid (before ++ part) d rest
  rw [utf8Len_append] at hget hnext
  have hsep : Pos.Raw.get (singleton c) 0 = c := get_of_valid [] [c]
  have hsepNext : Pos.Raw.next (singleton c) 0 = ⟨c.utf8Size⟩ := by
    simpa using next_of_valid [] c []
  conv_lhs => rw [splitOnAux]
  rw [if_neg hmore, hget, hnext, hsep, hsepNext, List.headD_cons]
  by_cases h : d = c
  · subst h
    have hfull : Pos.Raw.atEnd (singleton d) ⟨d.utf8Size⟩ = true := by
      simp [atEnd_iff, Pos.Raw.le_iff]
    have hback : Pos.Raw.unoffsetBy ⟨utf8Len before + utf8Len part + d.utf8Size⟩
        (⟨d.utf8Size⟩ : Pos.Raw) = ⟨utf8Len before + utf8Len part⟩ := by
      simp [Pos.Raw.ext_iff]
    simp only [BEq.rfl, if_true, hfull, hback, extract_of_valid before part (d :: rest)]
  · have hstay : Pos.Raw.unoffsetBy ⟨utf8Len before + utf8Len part⟩ (0 : Pos.Raw) =
        ⟨utf8Len before + utf8Len part⟩ := by simp
    simp only [beq_false_of_ne h, Bool.false_eq_true, if_false, if_neg h, hstay, hnext]

/-- The parts between separators of one character, from the places that the search stands at. -/
theorem splitOnAux_singleton :
    splitOnAux (ofList (before ++ part ++ rest)) (singleton c) ⟨utf8Len before⟩
        ⟨utf8Len before + utf8Len part⟩ 0 parts =
      parts.reverse ++ (List.splitOnPPrepend (· == c) rest part.reverse).map ofList := by
  induction rest generalizing before part parts with
  | nil => rw [splitOnAux_end]; simp
  | cons d rest ih =>
    rw [splitOnAux_cons]
    split_ifs with h
    · have ih := ih (before ++ part ++ [d]) [] (ofList part :: parts)
      simpa [List.splitOnPPrepend_cons_eq_if, -ofList_append, h, Nat.add_assoc] using ih
    · have ih := ih before (part ++ [d]) parts
      simpa [List.splitOnPPrepend_cons_eq_if, -ofList_append, h, Nat.add_assoc] using ih

end Parts

theorem splitOn_singleton (c : Char) (text : String) :
    text.splitOn (String.singleton c) = (text.toList.splitOn c).map String.ofList := by
  have hsep : (String.singleton c == "") = false := by
    simp [← String.toList_inj]
  have h := splitOnAux_singleton c [] [] text.toList []
  rw [String.splitOn, hsep]
  simpa [List.splitOn_eq_splitOnP] using h

/-! ## Extensions -/

theorem splitOn_point (name : String) :
    name.splitOn "." = (name.toList.splitOn '.').map String.ofList :=
  splitOn_singleton '.' name

/-- No text but the empty one is empty between its points. -/
theorem splitOn_point_eq_blank {name : String} : name.splitOn "." = [""] ↔ name = "" := by
  have hjoin : ['.'].intercalate (name.toList.splitOn '.') = name.toList :=
    List.intercalate_splitOn '.'
  constructor
  · intro h
    rw [splitOn_point, List.map_eq_singleton_iff] at h
    obtain ⟨part, hparts, hpart⟩ := h
    rw [String.ofList_eq_empty_iff] at hpart
    rw [hparts, hpart] at hjoin
    simpa using hjoin.symm
  · rintro rfl
    rw [splitOn_point]
    rfl

theorem extension?_of_no_point {name : String} (h : '.' ∉ name.toList) :
    extension? name = none := by
  simp [extension?, splitOn_point, List.splitOn_eq_singleton h]

theorem extension?_of_point {stem extension : String} (h : '.' ∉ extension.toList) :
    extension? (stem ++ "." ++ extension) = if stem = "" then none else some extension := by
  have hparts : (stem ++ "." ++ extension).splitOn "." = stem.splitOn "." ++ [extension] := by
    have htext : (stem ++ "." ++ extension).toList = stem.toList ++ '.' :: extension.toList := by
      simp
    rw [splitOn_point, htext, List.splitOn_append_cons_self, List.splitOn_eq_singleton h,
      splitOn_point]
    simp
  obtain ⟨back, hback⟩ : ∃ back : List String, stem.splitOn "." = back.reverse :=
    ⟨_, (List.reverse_reverse _).symm⟩
  rw [extension?, hparts, List.reverse_concat]
  simp only [← splitOn_point_eq_blank, hback, List.reverse_reverse, List.reverse_eq_iff]
  match back with
  | [] => simp [splitOn_point] at hback
  | [part] => by_cases hpart : part = "" <;> simp [hpart]
  | part :: other :: back => simp

theorem extension?_eq_some_iff {name extension : String} :
    extension? name = some extension ↔
      '.' ∉ extension.toList ∧ ∃ stem, stem ≠ "" ∧ name = stem ++ "." ++ extension := by
  constructor
  · intro h
    by_cases hpoint : '.' ∈ name.toList.reverse
    · obtain ⟨back, front, hname, hback⟩ := List.eq_append_cons_of_mem hpoint
      have hsplit : name = String.ofList front.reverse ++ "." ++ String.ofList back.reverse := by
        rw [List.reverse_eq_iff] at hname
        simp [← String.toList_inj, hname]
      have hback : '.' ∉ (String.ofList back.reverse).toList := by simpa using hback
      rw [hsplit, extension?_of_point hback] at h
      split at h
      · cases h
      · rename_i hstem
        cases h
        exact ⟨hback, _, hstem, hsplit⟩
    · rw [extension?_of_no_point (by simpa using hpoint)] at h
      cases h
  · rintro ⟨hextension, stem, hstem, rfl⟩
    rw [extension?_of_point hextension, if_neg hstem]

namespace FileTree

/-! ## What stands in a tree -/

/-- A tree holds a file with this content behind these names. -/
inductive Holds : FileTree → List String → ByteArray → Prop
  | file (content : ByteArray) : Holds (.file content) [] content
  | folder {entries : List FileEntry} {name : String} {tree : FileTree} {names : List String}
    {content : ByteArray} : ⟨name, tree⟩ ∈ entries → Holds tree names content →
    Holds (.folder entries) (name :: names) content

mutual

/-- No folder has two entries of one name. -/
def Distinct : FileTree → Prop
  | .file _ => True
  | .folder entries => (entries.map (·.name)).Nodup ∧ EntriesDistinct entries

/-- No folder among or below the entries has two entries of one name. -/
def EntriesDistinct : List FileEntry → Prop
  | [] => True
  | ⟨_, tree⟩ :: entries => tree.Distinct ∧ EntriesDistinct entries

end

mutual

/-- The same tree, with the entries of its folders listed in another order. -/
inductive Relisted : FileTree → FileTree → Prop
  | file (content : ByteArray) : Relisted (.file content) (.file content)
  | folder {entries entries' : List FileEntry} : EntriesRelisted entries entries' →
    Relisted (.folder entries) (.folder entries')

/-- The same entries in another order, and the folders below them listed in another order. -/
inductive EntriesRelisted : List FileEntry → List FileEntry → Prop
  | nil : EntriesRelisted [] []
  | cons {name : String} {tree tree' : FileTree} {entries entries' : List FileEntry} :
    Relisted tree tree' → EntriesRelisted entries entries' →
    EntriesRelisted (⟨name, tree⟩ :: entries) (⟨name, tree'⟩ :: entries')
  | swap (a b : FileEntry) (entries : List FileEntry) :
    EntriesRelisted (a :: b :: entries) (b :: a :: entries)
  | trans {entries entries' entries'' : List FileEntry} : EntriesRelisted entries entries' →
    EntriesRelisted entries' entries'' → EntriesRelisted entries entries''

end

mutual

theorem Relisted.refl : (tree : FileTree) → Relisted tree tree
  | .file content => .file content
  | .folder entries => .folder (EntriesRelisted.refl entries)

theorem EntriesRelisted.refl : (entries : List FileEntry) → EntriesRelisted entries entries
  | [] => .nil
  | ⟨_, tree⟩ :: entries => .cons (Relisted.refl tree) (EntriesRelisted.refl entries)

end

/-- Any order of the entries of a folder counts. -/
theorem EntriesRelisted.of_perm {entries entries' : List FileEntry} (h : entries.Perm entries') :
    EntriesRelisted entries entries' := by
  induction h with
  | nil => exact .nil
  | cons entry _ ih =>
    obtain ⟨name, tree⟩ := entry
    exact .cons (Relisted.refl tree) ih
  | swap a b entries => exact .swap b a entries
  | trans _ _ ih ih' => exact .trans ih ih'

/-! ## What is found in a tree -/

theorem entryFiles_cons (entry : FileEntry) (entries : List FileEntry) :
    entryFiles (entry :: entries) =
      entry.tree.files.map (fun found => ⟨entry.name :: found.names, found.content⟩) ++
        entryFiles entries := by
  obtain ⟨name, tree⟩ := entry
  rw [entryFiles]

theorem mem_entryFiles {entries : List FileEntry} {found : Found} :
    found ∈ entryFiles entries ↔ ∃ entry ∈ entries, ∃ below ∈ entry.tree.files,
      ⟨entry.name :: below.names, below.content⟩ = found := by
  induction entries with
  | nil => simp [entryFiles]
  | cons entry entries ih => simp [entryFiles_cons, ih]

mutual

theorem holds_of_mem_files : (tree : FileTree) → ∀ found ∈ tree.files,
    Holds tree found.names found.content
  | .file content, found, h => by
    rw [files, List.mem_singleton] at h
    exact h ▸ .file content
  | .folder entries, found, h => by
    rw [files] at h
    obtain ⟨⟨name, tree⟩, he, below, hbelow, rfl⟩ := mem_entryFiles.1 h
    exact .folder he (holds_of_mem_entryFiles entries _ he below hbelow)

theorem holds_of_mem_entryFiles : (entries : List FileEntry) → ∀ entry ∈ entries,
    ∀ found ∈ entry.tree.files, Holds entry.tree found.names found.content
  | ⟨_, tree⟩ :: entries, entry, he, found, h => by
    rcases List.mem_cons.1 he with rfl | he
    · exact holds_of_mem_files tree found h
    · exact holds_of_mem_entryFiles entries entry he found h

end

theorem Holds.mem_files {tree : FileTree} {names : List String} {content : ByteArray}
    (h : Holds tree names content) : ⟨names, content⟩ ∈ tree.files := by
  induction h with
  | file content => simp [files]
  | folder he _ ih => exact mem_entryFiles.2 ⟨_, he, _, ih, rfl⟩

/-- The walk finds what stands in the tree, and nothing else. -/
theorem mem_files_iff {tree : FileTree} {found : Found} :
    found ∈ tree.files ↔ Holds tree found.names found.content :=
  ⟨holds_of_mem_files tree found, Holds.mem_files⟩

mutual

/-- The walk meets no file twice. -/
theorem Distinct.names_nodup : {tree : FileTree} → tree.Distinct →
    (tree.files.map (·.names)).Nodup
  | .file _, _ => List.nodup_singleton _
  | .folder _, h => h.2.names_nodup h.1

theorem EntriesDistinct.names_nodup : {entries : List FileEntry} → EntriesDistinct entries →
    (entries.map (·.name)).Nodup → ((entryFiles entries).map (·.names)).Nodup
  | [], _, _ => List.nodup_nil
  | ⟨name, tree⟩ :: entries, h, hnames => by
    have hhere : (tree.files.map fun found => name :: found.names).Nodup := by
      have := h.1.names_nodup.map (List.cons_injective (a := name))
      rwa [List.map_map] at this
    have hrest := h.2.names_nodup hnames.of_cons
    rw [entryFiles, List.map_append, List.map_map, List.nodup_append]
    refine ⟨hhere, hrest, fun names hmem names' hmem' heq => ?_⟩
    -- the first name tells the file of this entry from those of the others
    obtain ⟨below, -, rfl⟩ := List.mem_map.1 hmem
    obtain ⟨found, hfound, rfl⟩ := List.mem_map.1 hmem'
    obtain ⟨entry, hentry, below', -, rfl⟩ := mem_entryFiles.1 hfound
    obtain ⟨hname, -⟩ := List.cons.inj heq
    exact (List.nodup_cons.1 hnames).1 (List.mem_map.2 ⟨entry, hentry, hname.symm⟩)

end

mutual

/-- However the folders list their entries, the walk meets the same files. -/
theorem Relisted.files_perm : {tree tree' : FileTree} → Relisted tree tree' →
    tree.files.Perm tree'.files
  | _, _, .file _ => .refl _
  | _, _, .folder h => h.entryFiles_perm

theorem EntriesRelisted.entryFiles_perm : {entries entries' : List FileEntry} →
    EntriesRelisted entries entries' → (entryFiles entries).Perm (entryFiles entries')
  | _, _, .nil => .refl _
  | _, _, .cons htree hentries => (htree.files_perm.map _).append hentries.entryFiles_perm
  | _, _, .swap a b entries => by
    simp only [entryFiles_cons, ← List.append_assoc]
    exact List.perm_append_comm.append_right _
  | _, _, .trans h h' => h.entryFiles_perm.trans h'.entryFiles_perm

end

/-! ## In the order of their names -/

theorem Found.before_iff {a b : Found} : a.before b = true ↔ a.names ≤ b.names := by
  simp [Found.before]

theorem pairwise_mergeSort_before (files : List Found) :
    (files.mergeSort Found.before).Pairwise fun a b => a.names ≤ b.names := by
  have h := @List.pairwise_mergeSort _ Found.before
    (fun a b c hab hbc => Found.before_iff.2
      ((Found.before_iff.1 hab).trans (Found.before_iff.1 hbc)))
    (fun a b => by simp [Found.before_iff, le_total]) files
  exact h.imp Found.before_iff.1

/-- Files with names of their own stand in one order only once they are sorted. -/
theorem mergeSort_before_eq {files files' : List Found} (h : (files.map (·.names)).Nodup)
    (hperm : files.Perm files') : files.mergeSort Found.before = files'.mergeSort Found.before := by
  have hleft := List.mergeSort_perm files Found.before
  have hright := List.mergeSort_perm files' Found.before
  refine List.Perm.eq_of_pairwise (fun a b ha hb hab hba => ?_) (pairwise_mergeSort_before files)
    (pairwise_mergeSort_before files') (hleft.trans (hperm.trans hright.symm))
  exact List.inj_on_of_nodup_map h (hleft.mem_iff.1 ha) (hperm.mem_iff.2 (hright.mem_iff.1 hb))
    (le_antisymm hab hba)

end FileTree

/-! ## The sources of a folder -/

/-- A name that ends in the extension of grammar sources, with something in front of its point. -/
def NamesSource (name : String) : Prop :=
  ∃ stem, stem ≠ "" ∧ name = stem ++ "." ++ sourceExtension

theorem namesSource_iff {name : String} :
    NamesSource name ↔ extension? name = some sourceExtension := by
  rw [extension?_eq_some_iff]
  exact (and_iff_right (by decide)).symm

/-- The grammar sources in a folder and below it, in the order of their names. -/
def sourcesIn (entries : List FileEntry) : List FileTree.Found :=
  ((FileTree.entryFiles entries).filter fun found =>
    extension? (found.names.getLastD "") = some sourceExtension).mergeSort FileTree.Found.before

theorem filesToCheck_folder (path : String) (entries : List FileEntry) :
    filesToCheck path (.folder entries) =
      (sourcesIn entries).map fun source => (joinPath path source.names, source.content) := rfl

section Sources

variable {entries entries' : List FileEntry}

/-- The sources are the files of the folder whose name is that of a source. -/
theorem mem_sourcesIn {source : FileTree.Found} :
    source ∈ sourcesIn entries ↔ FileTree.Holds (.folder entries) source.names source.content ∧
      NamesSource (source.names.getLastD "") := by
  rw [sourcesIn, (List.mergeSort_perm _ _).mem_iff, List.mem_filter, decide_eq_true_iff,
    namesSource_iff, ← FileTree.mem_files_iff, FileTree.files]

/-- The walk meets no source twice. -/
theorem sources_names_nodup (h : (FileTree.folder entries).Distinct) :
    (((FileTree.entryFiles entries).filter fun found =>
      extension? (found.names.getLastD "") = some sourceExtension).map (·.names)).Nodup :=
  h.names_nodup.sublist (List.filter_sublist.map _)

/-- The sources stand in increasing order, each at one place. -/
theorem sourcesIn_increasing (h : (FileTree.folder entries).Distinct) :
    (sourcesIn entries).Pairwise fun a b => a.names < b.names := by
  have hnodup : ((sourcesIn entries).map (·.names)).Nodup :=
    (((List.mergeSort_perm _ _).map _).nodup_iff).2 (sources_names_nodup h)
  have hle : (sourcesIn entries).Pairwise fun a b => a.names ≤ b.names :=
    FileTree.pairwise_mergeSort_before _
  exact (hle.and (List.pairwise_map.1 hnodup)).imp fun h => lt_of_le_of_ne h.1 h.2

/-- The sources do not tell how the folders listed them. -/
theorem sourcesIn_relisted (h : (FileTree.folder entries).Distinct)
    (hlist : FileTree.EntriesRelisted entries entries') : sourcesIn entries = sourcesIn entries' :=
  FileTree.mergeSort_before_eq (sources_names_nodup h) (hlist.entryFiles_perm.filter _)

end Sources

end TextGrammar
