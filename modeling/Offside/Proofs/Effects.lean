import Offside.Cli.Run
import Offside.Proofs.Diagnosis

/-!
# Offside.Proofs.Effects

What a run does to the files. **It leaves all of them as they were, or it has
succeeded and one file holds the code of its source**
(`Cli.run_writes_only_code`). That file is the one that `-o` names, or it has the
name of the input with another extension and stands in the directory of the program.
-/

namespace Offside

/-! ### One file is written -/

namespace Node

/-- A file can be written where names lead to: there is one, or there is nothing yet in a
directory that exists. -/
def Accepts (node : Node) (names : List String) : Prop :=
  (∃ old, node.find? names = some (file old)) ∨
    ∃ dir name, names = dir ++ [name] ∧ node.isDirectory? dir = true ∧ node.find? names = none

theorem find?_append (names ns : List String) (node : Node) :
    node.find? (names ++ ns) = (node.find? names).bind (find? ns) := by
  induction names generalizing node with
  | nil => rfl
  | cons name names ih =>
      cases node with
      | file content => rfl
      | directory entries =>
          rw [List.cons_append, find?, find?, Option.bind_assoc]
          exact Option.bind_congr fun child _ => ih child

/-- What has entries is a directory. -/
theorem isDirectory?_of_find?_concat {node child : Node} {names : List String} {name : String}
    (h : node.find? (names ++ [name]) = some child) : node.isDirectory? names = true := by
  rw [find?_append] at h
  obtain ⟨parent, hparent, hchild⟩ := Option.bind_eq_some_iff.1 h
  cases parent with
  | file content => cases hchild
  | directory entries =>
      rw [isDirectory?, hparent]
      rfl

theorem isDirectory?_dropLast {node : Node} {names : List String}
    (h : node.isDirectory? names = true) : node.isDirectory? names.dropLast = true := by
  rcases List.eq_nil_or_concat names with rfl | ⟨dir, name, rfl⟩
  · exact h
  · rw [List.concat_eq_append, List.dropLast_concat]
    obtain ⟨child, hchild⟩ : ∃ child, node.find? (dir ++ [name]) = some child := by
      rw [isDirectory?] at h
      cases hfind : node.find? (dir.concat name) with
      | some child => exact ⟨child, by rw [← List.concat_eq_append, hfind]⟩
      | none =>
          rw [hfind] at h
          cases h
    exact isDirectory?_of_find?_concat hchild

/-- A file below a node is in a directory: in one of its entries, or it is a new one. -/
theorem Accepts.cases {node : Node} {name : String} {names : List String}
    (h : node.Accepts (name :: names)) :
    ∃ entries, node = directory entries ∧
      ((∃ child, entries.lookup name = some child ∧ child.Accepts names) ∨
        entries.lookup name = none ∧ names = []) := by
  cases node with
  | file content =>
      rcases h with ⟨old, hold⟩ | ⟨dir, last, hnames, hdir, -⟩
      · cases hold
      · cases dir <;> cases hdir
  | directory entries =>
      refine ⟨entries, rfl, ?_⟩
      cases hlookup : entries.lookup name with
      | none =>
          refine .inr ⟨rfl, ?_⟩
          rcases h with ⟨old, hold⟩ | ⟨dir, last, hnames, hdir, -⟩
          · rw [find?, hlookup] at hold
            cases hold
          · cases dir with
            | nil => exact (List.cons.inj hnames).2
            | cons first dir =>
                obtain ⟨rfl, -⟩ := List.cons.inj hnames
                rw [isDirectory?, find?, hlookup] at hdir
                cases hdir
      | some child =>
          refine .inl ⟨child, rfl, ?_⟩
          have hfind : (directory entries).find? (name :: names) = child.find? names := by
            rw [find?, hlookup, Option.bind_some]
          rcases h with ⟨old, hold⟩ | ⟨dir, last, hnames, hdir, hnone⟩
          · exact .inl ⟨old, hfind ▸ hold⟩
          · cases dir with
            | nil =>
                obtain ⟨rfl, rfl⟩ := List.cons.inj hnames
                rw [hfind] at hnone
                cases hnone
            | cons first dir =>
                obtain ⟨rfl, rfl⟩ := List.cons.inj hnames
                rw [isDirectory?, find?, hlookup, Option.bind_some] at hdir
                exact .inr ⟨dir, last, rfl, hdir, hfind ▸ hnone⟩

/-- What is written is there afterwards. -/
theorem find?_put_self {node : Node} {names : List String} (h : node.Accepts names)
    (content : ByteArray) : (node.put content names).find? names = some (file content) := by
  induction names generalizing node with
  | nil =>
      rcases h with ⟨old, hold⟩ | ⟨dir, last, hnames, -⟩
      · obtain rfl := Option.some.inj hold
        rfl
      · cases dir <;> cases hnames
  | cons name names ih =>
      obtain ⟨entries, rfl, ⟨child, hlookup, hchild⟩ | ⟨hlookup, rfl⟩⟩ := h.cases
      · rw [find?_put_of_lookup hlookup, ih hchild]
      · rw [find?_put_of_lookup_eq_none hlookup, if_pos rfl, find?]

/-- All other files stay as they are. -/
theorem content?_put_of_ne {names ns : List String} (hne : ns ≠ names) (content : ByteArray)
    (node : Node) :
    ((node.put content names).find? ns).bind content? = (node.find? ns).bind content? := by
  induction names generalizing node ns with
  | nil =>
      obtain ⟨n, ns, rfl⟩ := List.exists_cons_of_ne_nil hne
      cases node <;> rfl
  | cons name names ih =>
      cases node with
      | file old => rfl
      | directory entries =>
          cases ns with
          | nil =>
              have hdirectory := isDirectory_put content (name :: names) (directory entries)
              rw [find?, find?, Option.bind_some, Option.bind_some]
              cases hput : (directory entries).put content (name :: names) with
              | file old =>
                  rw [hput] at hdirectory
                  cases hdirectory
              | directory entries => rfl
          | cons n ns =>
              by_cases hn : n = name
              · subst hn
                have hrest : ns ≠ names := fun heq => hne (heq ▸ rfl)
                cases hlookup : entries.lookup n with
                | some child =>
                    rw [find?_put_of_lookup hlookup, ih hrest, find?, hlookup, Option.bind_some]
                | none =>
                    rw [find?_put_of_lookup_eq_none hlookup, find?, hlookup]
                    split
                    · rename_i hnil
                      obtain ⟨m, ms, rfl⟩ := List.exists_cons_of_ne_nil (hnil ▸ hrest)
                      rfl
                    · rfl
              · rw [find?_put_of_ne hn]

end Node

/-- A part of a path is a name, and not a dot or two that lead from one directory to
another. -/
structure Path.IsName (part : String) : Prop where
  ne_empty : part ≠ ""
  ne_dot : part ≠ "."
  ne_dots : part ≠ ".."

namespace FileTree

/-- A path leads to this place for a file: there is one, or there can be one. -/
def LeadsTo (tree : FileTree) (path : String) (p : List String) : Prop :=
  tree.locate path = .ok (.file p) ∨ tree.locate path = .ok (.vacant p)

/-- One file holds a text afterwards. All others hold what they held before, and there
are the same directories. -/
structure IsWritten (before after : FileTree) (p : List String) (text : String) : Prop where
  content : after.content? p = some text.toUTF8
  others : ∀ q, q ≠ p → after.content? q = before.content? q
  directories : ∀ q, after.isDirectory q = before.isDirectory q
  here : after.here = before.here

/-- A text is stored in the file that a path leads to. -/
def Stores (before after : FileTree) (path text : String) : Prop :=
  ∃ p, before.LeadsTo path p ∧ before.IsWritten after p text

theorem isWritten_put {tree : FileTree} {p : List String} (h : tree.root.Accepts p)
    (text : String) : tree.IsWritten (tree.put p text.toUTF8) p text where
  content := by rw [content?, put, Node.find?_put_self h, Option.bind_some, Node.content?]
  others q hq := Node.content?_put_of_ne hq text.toUTF8 tree.root
  directories q := Node.isDirectory?_put text.toUTF8 p q tree.root
  here := rfl

/-- What one part of a path comes to: it leads on from a directory, or it is the last
part and the name of a file in the directory, be it there or not. -/
theorem walk_cases {tree : FileTree} {here rest : List String} {part : String} {place : Place}
    (h : tree.walk here (part :: rest) = .ok place) :
    (∃ there, (tree.isDirectory here = true → tree.isDirectory there = true) ∧
      tree.walk there rest = .ok place) ∨
    rest = [] ∧ Path.IsName part ∧
      (place = .unnameable ∨
        (∃ old, tree.root.find? (here ++ [part]) = some (.file old)) ∧
          place = .file (here ++ [part]) ∨
        tree.root.find? (here ++ [part]) = none ∧ place = .vacant (here ++ [part])) := by
  rw [walk] at h
  by_cases hdot : part = "" ∨ part = "."
  · rw [if_pos hdot] at h
    exact .inl ⟨here, id, h⟩
  by_cases hdots : part = ".."
  · rw [if_neg hdot, if_pos hdots] at h
    exact .inl ⟨here.dropLast, Node.isDirectory?_dropLast, h⟩
  have hname : Path.IsName part := ⟨fun h => hdot (.inl h), fun h => hdot (.inr h), hdots⟩
  have hlast {result : Place} {fault : FileFault}
      (h : (if rest = [] then Except.ok result else .error fault) = .ok place) :
      rest = [] ∧ place = result := by
    split at h
    · cases h
      exact ⟨‹_›, rfl⟩
    · cases h
  rw [if_neg hdot, if_neg hdots] at h
  dsimp only at h
  split at h
  · obtain ⟨hrest, rfl⟩ := hlast h
    exact .inr ⟨hrest, hname, .inl rfl⟩
  split at h
  · rename_i entries hfind
    refine .inl ⟨here ++ [part], fun _ => ?_, h⟩
    rw [isDirectory, Node.isDirectory?, hfind]
    rfl
  · rename_i old hfind
    obtain ⟨hrest, rfl⟩ := hlast h
    exact .inr ⟨hrest, hname, .inr (.inl ⟨⟨old, hfind⟩, rfl⟩)⟩
  · rename_i hfind
    obtain ⟨hrest, rfl⟩ := hlast h
    exact .inr ⟨hrest, hname, .inr (.inr ⟨hfind, rfl⟩)⟩

/-- What a path leads to is found from its start. -/
theorem walk_of_locate {tree : FileTree} {path : String} {place : Place}
    (h : tree.locate path = .ok place) :
    tree.walk (if Path.isAbsolute path then [] else tree.here) (Path.parts path) = .ok place := by
  rw [locate, follow] at h
  split at h
  · cases h
  split at h
  · cases h
  exact h

/-- A place that is found for a file accepts one. -/
theorem accepts_of_walk {tree : FileTree} {here ps p : List String} {place : Place}
    (hhere : tree.isDirectory here = true) (h : tree.walk here ps = .ok place)
    (hplace : place = .file p ∨ place = .vacant p) : tree.root.Accepts p := by
  induction ps generalizing here with
  | nil =>
      cases h
      rcases hplace with hp | hp <;> cases hp
  | cons part rest ih =>
      rcases walk_cases h with
        ⟨there, hthere, hwalk⟩ | ⟨-, -, rfl | ⟨⟨old, hfind⟩, rfl⟩ | ⟨hfind, rfl⟩⟩
      · exact ih (hthere hhere) hwalk
      · rcases hplace with hp | hp <;> cases hp
      · rcases hplace with hp | hp <;> cases hp
        exact .inl ⟨old, hfind⟩
      · rcases hplace with hp | hp <;> cases hp
        exact .inr ⟨here, part, rfl, hhere, hfind⟩

/-- A path starts at a directory. -/
theorem isDirectory_start (tree : FileTree) (path : String) :
    tree.isDirectory (if Path.isAbsolute path then [] else tree.here) = true := by
  split
  · -- The way to the directory of the program starts at the root.
    cases hhere : tree.here with
    | nil => exact hhere ▸ tree.isDirectory_here
    | cons name names =>
        cases hroot : tree.root with
        | directory entries =>
            rw [isDirectory, hroot]
            rfl
        | file content =>
            have hdirectory := tree.isDirectory_here
            rw [hroot, hhere] at hdirectory
            cases hdirectory
  · exact tree.isDirectory_here

theorem LeadsTo.accepts {tree : FileTree} {path : String} {p : List String}
    (h : tree.LeadsTo path p) : tree.root.Accepts p := by
  have hstart := tree.isDirectory_start path
  rcases h with hfile | hvacant
  · exact accepts_of_walk hstart (walk_of_locate hfile) (.inl rfl)
  · exact accepts_of_walk hstart (walk_of_locate hvacant) (.inr rfl)

end FileTree

theorem Path.withoutLastSlashes_eq_self {path : String} (h : endsInSlash path = false) :
    withoutLastSlashes path = path := by
  have hlast : path.toList.reverse.dropWhile (· = '/') = path.toList.reverse := by
    cases hreverse : path.toList.reverse with
    | nil => rfl
    | cons c cs =>
        refine List.dropWhile_cons_of_neg ?_
        rw [endsInSlash, ← List.head?_reverse, hreverse] at h
        simpa using h
  rw [withoutLastSlashes, hlast, List.reverse_reverse, String.ofList_toList]

namespace FileTree

theorem stores_of_writeText {tree after : FileTree} {path text : String}
    (h : tree.writeText path text = .ok after) : tree.Stores after path text := by
  rw [writeText] at h
  cases hplace : tree.follow path (Path.parts (Path.withoutLastSlashes path)) with
  | error fault =>
      rw [hplace] at h
      cases h
  | ok place =>
      rw [hplace] at h
      cases hslash : Path.endsInSlash path with
      | true =>
          rw [hslash] at h
          cases h
      | false =>
          rw [hslash] at h
          rw [Path.withoutLastSlashes_eq_self hslash] at hplace
          cases place with
          | file p =>
              cases h
              have hleads : tree.LeadsTo path p := .inl hplace
              exact ⟨p, hleads, isWritten_put hleads.accepts text⟩
          | vacant p =>
              cases h
              have hleads : tree.LeadsTo path p := .inr hplace
              exact ⟨p, hleads, isWritten_put hleads.accepts text⟩
          | unnameable | directory => cases h

end FileTree

/-! ### The name of the file -/

namespace Path

theorem slash_notMem_of_mem_splitSlashes {cs part : List Char} (h : part ∈ splitSlashes cs) :
    '/' ∉ part := by
  induction cs generalizing part with
  | nil =>
      rw [List.mem_singleton.1 h]
      exact List.not_mem_nil
  | cons c cs ih =>
      rw [splitSlashes] at h
      split at h
      · rcases List.mem_cons.1 h with rfl | h
        · exact List.not_mem_nil
        · exact ih h
      · rename_i hc
        have hcons {part : List Char} (hpart : '/' ∉ part) : '/' ∉ c :: part := by
          simpa [hpart] using fun heq => hc heq.symm
        split at h
        · rw [List.mem_singleton.1 h]
          exact hcons List.not_mem_nil
        · rename_i first rest hsplit
          rcases List.mem_cons.1 h with rfl | h
          · exact hcons (ih (by rw [hsplit]; exact List.mem_cons_self))
          · exact ih (by rw [hsplit]; exact List.mem_cons_of_mem first h)

theorem splitSlashes_of_notMem {cs : List Char} (h : '/' ∉ cs) : splitSlashes cs = [cs] := by
  induction cs with
  | nil => rfl
  | cons c cs ih =>
      have hc : c ≠ '/' := fun hc => h (hc ▸ List.mem_cons_self)
      rw [splitSlashes, if_neg hc, ih fun hcs => h (List.mem_cons_of_mem c hcs)]

theorem slash_notMem_of_fileName? {path name : String} (h : fileName? path = some name) :
    '/' ∉ name.toList := by
  unfold fileName? at h
  split at h
  · rename_i last hlast
    split at h
    · cases h
    · cases h
      have hmem := List.mem_of_mem_filter (List.mem_of_getLast? hlast)
      obtain ⟨part, hpart, rfl⟩ := List.mem_map.1 hmem
      rw [String.toList_ofList]
      exact slash_notMem_of_mem_splitSlashes hpart
  · cases h

theorem mem_of_mem_stem {name : String} {c : Char} (h : c ∈ (stem name).toList) :
    c ∈ name.toList := by
  rw [stem] at h
  split at h
  · rename_i dot before hsplit
    split at h
    · exact h
    · have hsuffix : before <:+ name.toList.reverse :=
        (List.suffix_cons dot before).trans (hsplit ▸ List.dropWhile_suffix _)
      rw [String.toList_ofList, List.mem_reverse] at h
      exact List.mem_reverse.1 (hsuffix.mem h)
  · exact h

theorem slash_notMem_stem {path name : String} (h : fileName? path = some name) :
    '/' ∉ (stem name ++ ".js").toList := by
  rw [String.toList_append, List.mem_append]
  rintro (hstem | hextension)
  · exact slash_notMem_of_fileName? h (mem_of_mem_stem hstem)
  · exact absurd hextension (by decide)

end Path

namespace FileTree

/-- A name without a slash leads to a place in the directory of the program. -/
theorem place_of_locate {tree : FileTree} {name : String} {place : Place}
    (hslash : '/' ∉ name.toList) (h : tree.locate name = .ok place) :
    place ∈ [.file (tree.here ++ [name]), .vacant (tree.here ++ [name]), .directory,
      .unnameable] := by
  have hparts : Path.parts name = [name] := by
    rw [Path.parts, Path.splitSlashes_of_notMem hslash, List.map_singleton, String.ofList_toList]
  have habsolute : ¬ Path.isAbsolute name = true := fun hhead =>
    hslash (List.mem_of_mem_head? (of_decide_eq_true hhead))
  have hwalk := walk_of_locate h
  rw [hparts, if_neg habsolute] at hwalk
  rcases walk_cases hwalk with ⟨there, -, hdone⟩ | ⟨-, -, rfl | ⟨-, rfl⟩ | ⟨-, rfl⟩⟩
  · cases hdone
    simp
  · simp
  · simp
  · simp

/-- A path that leads to a file ends in the name of the file. -/
theorem exists_name_of_walk {tree : FileTree} {here ps p : List String}
    (h : tree.walk here ps = .ok (.file p)) :
    ∃ name, ps.getLast? = some name ∧ Path.IsName name ∧ p.getLast? = some name := by
  induction ps generalizing here with
  | nil => cases h
  | cons part rest ih =>
      rcases walk_cases h with ⟨there, -, hwalk⟩ | ⟨rfl, hname, hplace⟩
      · obtain ⟨name, hrest, hname, hp⟩ := ih hwalk
        refine ⟨name, ?_, hname, hp⟩
        rw [List.getLast?_cons, hrest]
        rfl
      · rcases hplace with hp | ⟨-, hp⟩ | ⟨-, hp⟩ <;> cases hp
        exact ⟨part, rfl, hname, List.getLast?_concat⟩

/-- The last name of a path that leads to a file is the name of the file. -/
theorem exists_fileName_of_locate {tree : FileTree} {path : String} {p : List String}
    (h : tree.locate path = .ok (.file p)) :
    ∃ name, Path.fileName? path = some name ∧ Path.IsName name ∧ p.getLast? = some name := by
  obtain ⟨name, hlast, hname, hp⟩ := exists_name_of_walk (walk_of_locate h)
  obtain ⟨before, hparts⟩ := List.getLast?_eq_some_iff.1 hlast
  refine ⟨name, ?_, hname, hp⟩
  rw [Path.fileName?, hparts, List.filter_append,
    List.filter_cons_of_pos (by simp [hname.ne_empty, hname.ne_dot]), List.filter_nil,
    List.getLast?_concat]
  exact if_neg hname.ne_dots

theorem exists_file_of_readText {tree : FileTree} {path text : String}
    (h : tree.readText path = .ok text) : ∃ p, tree.locate path = .ok (.file p) := by
  cases hplace : tree.locate path with
  | error fault =>
      rw [readText, read, hplace] at h
      cases h
  | ok place =>
      rw [readText, read, hplace] at h
      cases place with
      | file p => exact ⟨p, rfl⟩
      | directory | vacant | unnameable => cases h

/-- A path that a text is read from ends in a name. -/
theorem exists_fileName_of_readText {tree : FileTree} {path text : String}
    (h : tree.readText path = .ok text) : ∃ name, Path.fileName? path = some name := by
  obtain ⟨p, hplace⟩ := exists_file_of_readText h
  obtain ⟨name, hname, -⟩ := exists_fileName_of_locate hplace
  exact ⟨name, hname⟩

end FileTree

/-! ### Runs -/

namespace Cli

/-- A file is asked for: nothing else is to be shown or checked, and there is a name
for it. -/
def Options.wantsFile (o : Options) : Bool :=
  !o.check && !o.dumpTokens && !o.dumpAst && (o.output.isSome || o.input ≠ "-")

/-- The source that a run reads. -/
def Options.source (o : Options) (stdin : ByteArray) (tree : FileTree) : Except FileFault String :=
  if o.readsStdin then FileTree.decode stdin else tree.readText o.input

/-- The code goes to this place in the tree: where `-o` says, or under the name of the
input with another extension in the directory of the program. -/
def Options.Targets (o : Options) (tree : FileTree) (p : List String) : Prop :=
  (∃ path, o.output = some path ∧ tree.LeadsTo path p) ∨
    (o.output = none ∧ ∃ name, Path.fileName? o.input = some name ∧
      p = tree.here ++ [Path.stem name ++ ".js"])

theorem Options.isSome_target? (o : Options) :
    o.target?.isSome = (o.output.isSome || o.input ≠ "-") := by
  rw [target?]
  cases o.output with
  | some path => rfl
  | none =>
      by_cases hstdin : o.input = "-"
      · simp [readsStdin, hstdin]
      · simp [readsStdin, hstdin]

theorem transpile_of_transpileChecked {file : Option String} {source : String} {width : Nat}
    {output : Output} (h : transpileChecked file source width = .ok output) :
    transpile source width = .ok output := by
  by_cases hscan : Diagnostic.scan .full file (Token.ofProgram source.toList) = []
  · rw [transpileChecked_of_scan_eq_nil hscan] at h
    cases htranspile : transpile source width with
    | error e =>
        rw [htranspile] at h
        cases h
    | ok made =>
        rw [htranspile] at h
        cases h
        rfl
  · rw [transpileChecked_of_scan_ne_nil hscan] at h
    cases h

/-- A source is answered by a report, without success or because no file is asked
for, or its code is to be written. -/
theorem respondTo_cases (o : Options) (source : String) :
    (∃ report, respondTo o source = .done report ∧ (report.exit ≠ 0 ∨ o.wantsFile = false)) ∨
      ∃ output path warnings, respondTo o source = .write path output.code warnings ∧
        transpile source o.indent = .ok output ∧ o.target? = some path ∧ o.wantsFile = true := by
  have htarget := o.isSome_target?
  rw [respondTo]
  split
  · rename_i htokens
    exact .inl ⟨_, rfl, .inr (by simp [Options.wantsFile, htokens])⟩
  split
  · rename_i htree
    exact .inl ⟨_, rfl, .inr (by simp [Options.wantsFile, htree])⟩
  split
  · exact .inl ⟨_, rfl, .inl Nat.one_ne_zero⟩
  rename_i htokens htree _ output houtput
  dsimp only
  split
  · rename_i hcheck
    exact .inl ⟨_, rfl, .inr (by simp [Options.wantsFile, hcheck])⟩
  rename_i hcheck
  split
  · rename_i hnone
    rw [hnone] at htarget
    refine .inl ⟨_, rfl, .inr ?_⟩
    rw [Options.wantsFile, ← htarget, Option.isSome_none, Bool.and_false]
  · rename_i path hpath
    rw [hpath] at htarget
    refine .inr ⟨output, path, _, rfl, transpile_of_transpileChecked houtput, hpath, ?_⟩
    rw [Options.wantsFile, ← htarget]
    simp [htokens, htree, hcheck]

section

variable {o : Options} {stdin : ByteArray} {tree : FileTree} {path code warnings : String}

theorem runWith_of_done {report : Report} (h : respond o (o.source stdin tree) = .done report) :
    runWith o stdin tree = (report, tree) := by
  rw [Options.source] at h
  simp only [runWith, h]

theorem runWith_of_write {changed : FileTree}
    (h : respond o (o.source stdin tree) = .write path code warnings)
    (hchanged : tree.writeText path code = .ok changed) :
    runWith o stdin tree = (writeReport path warnings (.ok ()), changed) := by
  rw [Options.source] at h
  simp only [runWith, h, hchanged]

theorem runWith_of_fault {fault : FileFault}
    (h : respond o (o.source stdin tree) = .write path code warnings)
    (hfault : tree.writeText path code = .error fault) :
    runWith o stdin tree = (writeReport path warnings (.error fault), tree) := by
  rw [Options.source] at h
  simp only [runWith, h, hfault]

end

/-- A run fails or is not asked for a file, and changes none, or it writes the code of
its source to its target. -/
theorem runWith_cases (o : Options) (stdin : ByteArray) (tree : FileTree) :
    ((runWith o stdin tree).2 = tree ∧
        ((runWith o stdin tree).1.exit ≠ 0 ∨ o.wantsFile = false)) ∨
      ∃ source output path, o.source stdin tree = .ok source ∧
        transpile source o.indent = .ok output ∧ o.target? = some path ∧ o.wantsFile = true ∧
        (runWith o stdin tree).1.exit = 0 ∧
        tree.writeText path output.code = .ok (runWith o stdin tree).2 := by
  cases hsource : o.source stdin tree with
  | error fault =>
      rw [runWith_of_done (by rw [hsource]; rfl)]
      exact .inl ⟨rfl, .inl Nat.one_ne_zero⟩
  | ok source =>
      have hrespond : respond o (o.source stdin tree) = respondTo o source := by
        rw [hsource]
        rfl
      obtain ⟨report, hdone, hreport⟩ | ⟨output, path, warnings, hwrite, houtput, hpath, hwants⟩ :=
        respondTo_cases o source
      · rw [runWith_of_done (hrespond.trans hdone)]
        exact .inl ⟨rfl, hreport⟩
      · cases hchanged : tree.writeText path output.code with
        | error fault =>
            rw [runWith_of_fault (hrespond.trans hwrite) hchanged]
            exact .inl ⟨rfl, .inl Nat.one_ne_zero⟩
        | ok changed =>
            rw [runWith_of_write (hrespond.trans hwrite) hchanged]
            exact .inr ⟨source, output, path, rfl, houtput, hpath, hwants, rfl, hchanged⟩

/-- Without `-o`, the target of a run is the name of its input with another
extension. -/
theorem Options.exists_name_of_target? {o : Options} {stdin : ByteArray} {tree : FileTree}
    {source path : String} (houtput : o.output = none) (htarget : o.target? = some path)
    (hsource : o.source stdin tree = .ok source) :
    ∃ name, Path.fileName? o.input = some name ∧ path = Path.stem name ++ ".js" := by
  rw [target?, houtput] at htarget
  dsimp only at htarget
  split at htarget
  · cases htarget
  · rename_i hstdin
    rw [Options.source, if_neg hstdin] at hsource
    obtain ⟨name, hname⟩ := FileTree.exists_fileName_of_readText hsource
    rw [Path.withExtension, hname] at htarget
    refine ⟨name, hname, ?_⟩
    rw [← Option.some.inj htarget]
    exact String.append_assoc ..

/-- What is stored under the target of a run is stored where the options say. -/
theorem Options.targets_of_stores {o : Options} {stdin : ByteArray} {tree after : FileTree}
    {source path code : String} (htarget : o.target? = some path)
    (hsource : o.source stdin tree = .ok source) (h : tree.Stores after path code) :
    ∃ p, o.Targets tree p ∧ tree.IsWritten after p code := by
  obtain ⟨p, hleads, hwritten⟩ := h
  refine ⟨p, ?_, hwritten⟩
  cases houtput : o.output with
  | some path' =>
      rw [target?, houtput] at htarget
      cases htarget
      exact .inl ⟨path, houtput, hleads⟩
  | none =>
      obtain ⟨name, hname, rfl⟩ := exists_name_of_target? houtput htarget hsource
      have hplace {place : Place} (hlocate : tree.locate (Path.stem name ++ ".js") = .ok place) :=
        FileTree.place_of_locate (Path.slash_notMem_stem hname) hlocate
      refine .inr ⟨houtput, name, hname, ?_⟩
      rcases hleads with hlocate | hlocate
      · simpa using hplace hlocate
      · simpa using hplace hlocate

end Cli

/-! ### From file to file -/

section

variable {tree : FileTree} {input output source : String}

theorem transpileFile_of_unread {fault : FileFault} (hread : tree.readText input = .error fault) :
    transpileFile tree input output = (.error (.file fault), tree) := by
  rw [transpileFile, hread]
  rfl

theorem transpileFile_of_failure {e : Failure} (hread : tree.readText input = .ok source)
    (htranspile : transpile source defaultWidth = .error e) :
    transpileFile tree input output = (.error e, tree) := by
  simp only [transpileFile, hread, htranspile, Except.mapError, bind, Except.bind]

theorem transpileFile_of_made {made : Output} (hread : tree.readText input = .ok source)
    (htranspile : transpile source defaultWidth = .ok made) {after : FileTree}
    (h : transpileFile tree input output = (.ok (), after)) :
    tree.writeText output made.code = .ok after := by
  simp only [transpileFile, hread, htranspile, Except.mapError, bind, Except.bind] at h
  cases hwrite : tree.writeText output made.code with
  | error fault =>
      rw [hwrite] at h
      cases h
  | ok changed =>
      rw [hwrite] at h
      cases h
      rfl

/-- Code is stored only if its source can be read and translated. -/
theorem exists_made_of_transpileFile {after : FileTree}
    (h : transpileFile tree input output = (.ok (), after)) :
    ∃ source made, tree.readText input = .ok source ∧
      transpile source defaultWidth = .ok made ∧ tree.Stores after output made.code := by
  cases hread : tree.readText input with
  | error fault =>
      rw [transpileFile_of_unread hread] at h
      cases h
  | ok source =>
      cases htranspile : transpile source defaultWidth with
      | error e =>
          rw [transpileFile_of_failure hread htranspile] at h
          cases h
      | ok made =>
          exact ⟨source, made, rfl, htranspile,
            FileTree.stores_of_writeText (transpileFile_of_made hread htranspile h)⟩

end

namespace Cli

/-- **A run leaves all files as they were, or it succeeds and one file holds the code of
its source.** It changes a file only if it ends with 0 and a file is asked for; the file
is where `-o` says, or has the name of the input with another extension and stands in
the directory of the program. A run that is asked for a file and ends with 0 has written
it. From file to file, nothing changes if the source cannot be read or translated. -/
theorem run_writes_only_code (args : List String) (stdin : ByteArray) (tree : FileTree) :
    ((run args stdin tree).2 = tree ∨
      (run args stdin tree).1.exit = 0 ∧
        ∃ o source output p, Options.ofArgs args = .ok o ∧ o.wantsFile = true ∧
          o.source stdin tree = .ok source ∧ transpile source o.indent = .ok output ∧
          o.Targets tree p ∧ tree.IsWritten (run args stdin tree).2 p output.code) ∧
    (∀ o, Options.ofArgs args = .ok o → o.wantsFile = true → (run args stdin tree).1.exit = 0 →
      ∃ source output p, o.source stdin tree = .ok source ∧
        transpile source o.indent = .ok output ∧ o.Targets tree p ∧
        tree.IsWritten (run args stdin tree).2 p output.code) ∧
    ∀ input output,
      (∀ fault, tree.readText input = .error fault →
        transpileFile tree input output = (.error (.file fault), tree)) ∧
      (∀ source e, tree.readText input = .ok source → transpile source defaultWidth = .error e →
        transpileFile tree input output = (.error e, tree)) ∧
      ∀ after, transpileFile tree input output = (.ok (), after) →
        ∃ source made, tree.readText input = .ok source ∧
          transpile source defaultWidth = .ok made ∧ tree.Stores after output made.code := by
  have hrun {o : Options} (hargs : Options.ofArgs args = .ok o) :
      run args stdin tree = runWith o stdin tree := by
    rw [run, hargs]
  refine ⟨?_, ?_, fun input output => ⟨?_, ?_, ?_⟩⟩
  · cases hargs : Options.ofArgs args with
    | error refusal =>
        left
        rw [run, hargs]
    | ok o =>
        rw [hrun hargs]
        rcases runWith_cases o stdin tree with
          ⟨hsame, -⟩ | ⟨source, output, path, hsource, houtput, hpath, hwants, hexit, hwrite⟩
        · exact .inl hsame
        · obtain ⟨p, htargets, hwritten⟩ :=
            Options.targets_of_stores hpath hsource (FileTree.stores_of_writeText hwrite)
          exact .inr ⟨hexit, o, source, output, p, rfl, hwants, hsource, houtput, htargets,
            hwritten⟩
  · intro o hargs hwants hexit
    rw [hrun hargs] at hexit ⊢
    rcases runWith_cases o stdin tree with
      ⟨-, hfails | hdry⟩ | ⟨source, output, path, hsource, houtput, hpath, -, -, hwrite⟩
    · exact absurd hexit hfails
    · rw [hwants] at hdry
      cases hdry
    · obtain ⟨p, htargets, hwritten⟩ :=
        Options.targets_of_stores hpath hsource (FileTree.stores_of_writeText hwrite)
      exact ⟨source, output, p, hsource, houtput, htargets, hwritten⟩
  · exact fun fault hread => transpileFile_of_unread hread
  · exact fun source e hread htranspile => transpileFile_of_failure hread htranspile
  · exact fun after h => exists_made_of_transpileFile h

end Cli

end Offside
