import Offside.Failure
import Offside.Files.Path

/-!
# Offside.Files

Files, as a program sees them: a tree of directories from the root of all files
down, and in it the directory that the program runs in. A path that starts with a
slash leads from the root, every other one from the directory of the program.

Places in the tree are given by the names on the way to them from the root. The
tree always has the directory of the program in it: writing a file makes and
removes no directory (`Node.isDirectory?_put`).
-/

namespace Offside

/-- What a name in a directory stands for. -/
inductive Node where
  | file (content : ByteArray)
  /-- A directory with its entries. Of two entries with one name the first counts. -/
  | directory (entries : List (String × Node))

namespace Node

/-- What names lead to, one after the other. -/
def find? : List String → Node → Option Node
  | [], node => some node
  | name :: names, directory entries => (entries.lookup name).bind (find? names)
  | _ :: _, file _ => none

/-- The content of a file. -/
def content? : Node → Option ByteArray
  | file content => some content
  | directory _ => none

/-- A node is a directory. -/
def isDirectory : Node → Bool
  | file _ => false
  | directory _ => true

/-- Names lead to a directory. -/
def isDirectory? (node : Node) (names : List String) : Bool := (node.find? names).any isDirectory

/-- Change what a name stands for. -/
def change (name : String) (f : Node → Node) (entries : List (String × Node)) :
    List (String × Node) :=
  entries.map fun (n, node) => (n, if n = name then f node else node)

/-- Give a content to the file that names lead to, or make a file there if there is
none. A directory is left as it is, and no directory is made. -/
def put (content : ByteArray) : List String → Node → Node
  | [], file _ => file content
  | name :: names, directory entries =>
    if (entries.lookup name).isSome then directory (change name (put content names) entries)
    else if names = [] then directory (entries ++ [(name, file content)])
    else directory entries
  | _, node => node

theorem lookup_change (name : String) (f : Node → Node) (entries : List (String × Node))
    (n : String) :
    (change name f entries).lookup n =
      (entries.lookup n).map fun node => if n = name then f node else node := by
  induction entries with
  | nil => rfl
  | cons entry entries ih =>
      obtain ⟨m, node⟩ := entry
      rw [change, List.map_cons, List.lookup_cons, List.lookup_cons, ← change, ih]
      by_cases hn : n = m
      · rw [hn, beq_self_eq_true]
        rfl
      · rw [beq_eq_false_iff_ne.2 hn]

theorem lookup_concat (entries : List (String × Node)) (name n : String) (node : Node) :
    (entries ++ [(name, node)]).lookup n =
      (entries.lookup n).or (if n = name then some node else none) := by
  rw [List.lookup_append, List.lookup_cons, List.lookup_nil]
  by_cases hn : n = name
  · rw [hn, beq_self_eq_true, if_pos rfl]
  · rw [beq_eq_false_iff_ne.2 hn, if_neg hn]

section

variable {content : ByteArray} {name n : String} {names ns : List String}
  {entries : List (String × Node)} {child : Node}

theorem put_of_lookup (h : entries.lookup name = some child) :
    (directory entries).put content (name :: names) =
      directory (change name (put content names) entries) := by
  rw [put, h, if_pos Option.isSome_some]

theorem put_of_lookup_eq_none (h : entries.lookup name = none) :
    (directory entries).put content (name :: names) =
      directory (if names = [] then entries ++ [(name, file content)] else entries) := by
  rw [put, h, if_neg (by simp)]
  split <;> rfl

/-- Writing a file goes on in the directory on the way to it. -/
theorem find?_put_of_lookup (h : entries.lookup name = some child) :
    ((directory entries).put content (name :: names)).find? (name :: ns) =
      (child.put content names).find? ns := by
  rw [put_of_lookup h, find?, lookup_change, h, Option.map_some, if_pos rfl, Option.bind_some]

theorem find?_put_of_lookup_eq_none (h : entries.lookup name = none) :
    ((directory entries).put content (name :: names)).find? (name :: ns) =
      if names = [] then (file content).find? ns else none := by
  rw [put_of_lookup_eq_none h, find?]
  split
  · rw [lookup_concat, h, if_pos rfl, Option.none_or, Option.bind_some]
  · rw [h, Option.bind_none]

/-- The other entries of a directory stay as they are. -/
theorem find?_put_of_ne (hn : n ≠ name) :
    ((directory entries).put content (name :: names)).find? (n :: ns) =
      (directory entries).find? (n :: ns) := by
  cases h : entries.lookup name with
  | some child =>
      rw [put_of_lookup h, find?, lookup_change, find?]
      simp only [if_neg hn, Option.map_id']
  | none =>
      rw [put_of_lookup_eq_none h, find?, find?]
      split
      · rw [lookup_concat, if_neg hn, Option.or_none]
      · rfl

end

theorem isDirectory_put (content : ByteArray) (names : List String) (node : Node) :
    (node.put content names).isDirectory = node.isDirectory := by
  cases node with
  | file old => cases names <;> rfl
  | directory entries =>
      cases names with
      | nil => rfl
      | cons name names =>
          cases h : entries.lookup name with
          | some child =>
              rw [put_of_lookup h]
              rfl
          | none =>
              rw [put_of_lookup_eq_none h]
              rfl

/-- Writing a file makes and removes no directory. -/
theorem isDirectory?_put (content : ByteArray) (names ns : List String) (node : Node) :
    (node.put content names).isDirectory? ns = node.isDirectory? ns := by
  induction names generalizing node ns with
  | nil =>
      cases node with
      | file old => cases ns <;> rfl
      | directory entries => rfl
  | cons name names ih =>
      cases node with
      | file old => rfl
      | directory entries =>
          cases ns with
          | nil => exact isDirectory_put content (name :: names) (directory entries)
          | cons n ns =>
              by_cases hn : n = name
              · subst hn
                cases h : entries.lookup n with
                | some child =>
                    have hfind : (directory entries).find? (n :: ns) = child.find? ns := by
                      rw [find?, h, Option.bind_some]
                    rw [isDirectory?, find?_put_of_lookup h, isDirectory?, hfind]
                    exact ih ns child
                | none =>
                    rw [isDirectory?, find?_put_of_lookup_eq_none h, isDirectory?, find?, h]
                    split
                    · cases ns <;> rfl
                    · rfl
              · rw [isDirectory?, find?_put_of_ne hn, isDirectory?]

end Node

/-- The files, and the directory that the program runs in. -/
structure FileTree where
  root : Node
  /-- The names on the way from the root to the directory of the program. -/
  here : List String
  isDirectory_here : root.isDirectory? here = true

/-- What a path leads to. -/
inductive Place where
  | file (path : List String)
  | directory
  /-- Nothing yet, in a directory that exists. -/
  | vacant (path : List String)
  /-- A name that is too long for a file, in a directory that exists. -/
  | unnameable
deriving DecidableEq, Repr

namespace FileTree

/-- The content of the file at a place. -/
def content? (tree : FileTree) (path : List String) : Option ByteArray :=
  (tree.root.find? path).bind Node.content?

/-- There is a directory at a place. -/
def isDirectory (tree : FileTree) (path : List String) : Bool := tree.root.isDirectory? path

/-- A name is longer than any that exists: it has more than 255 bytes. -/
def isTooLong (name : String) : Bool := 255 < name.utf8ByteSize

/-- Follow the parts of a path from a directory that exists. The part `..` leads
out of a directory; from the root, it leads to the root. -/
def walk (tree : FileTree) (here : List String) : List String → Except FileFault Place
  | [] => .ok .directory
  | part :: rest =>
    if part = "" ∨ part = "." then walk tree here rest
    else if part = ".." then walk tree here.dropLast rest
    else
      let there := here ++ [part]
      if isTooLong part then
        if rest = [] then .ok .unnameable else .error .nameTooLong
      else
        match tree.root.find? there with
        | some (.directory _) => walk tree there rest
        | some (.file _) => if rest = [] then .ok (.file there) else .error .notDirectory
        | none => if rest = [] then .ok (.vacant there) else .error .notFound

/-- Follow parts from where a path starts. A path has at least one byte, and
fewer than 4096. -/
def follow (tree : FileTree) (path : String) (parts : List String) : Except FileFault Place :=
  if path = "" then .error .notFound
  else if 4096 ≤ path.utf8ByteSize then .error .nameTooLong
  else tree.walk (if Path.isAbsolute path then [] else tree.here) parts

/-- What a path leads to. -/
def locate (tree : FileTree) (path : String) : Except FileFault Place :=
  tree.follow path (Path.parts path)

/-- The content of the file that a path leads to. -/
def read (tree : FileTree) (path : String) : Except FileFault ByteArray := do
  match ← tree.locate path with
  | .file p =>
    match tree.content? p with
    | some bytes => return bytes
    | none => throw .notFound
  | .directory => throw .isDirectory
  | .vacant _ => throw .notFound
  | .unnameable => throw .nameTooLong

/-- The text that bytes stand for. -/
def decode (bytes : ByteArray) : Except FileFault String :=
  match String.fromUTF8? bytes with
  | some s => .ok s
  | none => .error .invalidText

/-- The text in the file that a path leads to. -/
def readText (tree : FileTree) (path : String) : Except FileFault String := do
  decode (← tree.read path)

/-- Put a content at a place in the tree. -/
def put (tree : FileTree) (path : List String) (bytes : ByteArray) : FileTree where
  root := tree.root.put bytes path
  here := tree.here
  isDirectory_here := by rw [Node.isDirectory?_put, tree.isDirectory_here]

/-- Write a text to the file that a path leads to. The directory of the file
has to exist. A path that ends in a slash names a directory. -/
def writeText (tree : FileTree) (path : String) (text : String) :
    Except FileFault FileTree := do
  let place ← tree.follow path (Path.parts (Path.withoutLastSlashes path))
  if Path.endsInSlash path then throw .isDirectory
  match place with
  | .file p | .vacant p => return tree.put p text.toUTF8
  | .unnameable => throw .nameTooLong
  | .directory => throw .isDirectory

end FileTree

end Offside
