import CommentMarkdown.Place
import CommentMarkdown.Table

/-!
# Files

The program reads one file and may write another. What it can see of the files
is their contents, the places that names lead to, and which names could be opened
for writing, be it for the first time. Contents are bytes, so a write may also end
amid the bytes of a character that was there before. Writing changes what is found
at its own place and nowhere else (`found?_write`).

What the program prints goes to a place as well. It has names like any other, and
what is written under one of them is found there along with what is printed.
-/

namespace CommentMarkdown

/-- The files within reach. -/
structure Files where
  /-- The files that exist, under their own names. -/
  contents : Table ByteArray
  /-- What a name leads to. -/
  place : Text → Place := .file
  /-- The names under which a file can be written. -/
  isWritable : Text → Bool
  /-- The place of the standard output. -/
  output : Place := .standardOutput

namespace Files

/-- The files of a directory without further directories in it. Any name that leads to a
place for a file can be written, and so can the standard output. -/
def flat (contents : Table ByteArray) : Files where
  contents := contents
  place := Place.ofName
  isWritable name := (Place.ofName name).isFile

/-- The content at a place, if there is a file. A directory can be opened like a file and has
none. -/
def found? (files : Files) : Place → Option ByteArray
  | .file name => files.contents.lookup name
  | .directory => some .empty
  | .nowhere => none

/-- The content of a file, if it exists. -/
def read? (files : Files) (name : Text) : Option ByteArray :=
  files.found? (files.place name)

/-- The files with the content of one of them replaced. A name that leads to no file changes
nothing. -/
def write (files : Files) (name : Text) (content : ByteArray) : Files :=
  match files.place name with
  | .file name => { files with contents := files.contents.set name content }
  | _ => files

/-- The files with bytes added at the end of one of them, which need not exist. -/
def append (files : Files) (name : Text) (added : ByteArray) : Files :=
  files.write name ((files.read? name).getD .empty ++ added)

/-- The first bytes of a content, filled up with zeros if there are fewer. -/
def takeBytes (size : Nat) (content : ByteArray) : ByteArray :=
  content.extract 0 size ++ (List.replicate (size - content.size) 0).toByteArray

/-- The files with bytes put over what one of them holds from an offset on. -/
def overwrite (files : Files) (name : Text) (offset : Nat) (added : ByteArray) : Files :=
  let content := (files.read? name).getD .empty
  files.write name
    (takeBytes offset content ++ added ++ content.extract (offset + added.size) content.size)

/-- A content is taken or filled up to the size that is asked for. -/
theorem size_takeBytes (size : Nat) (content : ByteArray) :
    (takeBytes size content).size = size := by
  simp [takeBytes]
  omega

/-- What is found after a file has been written: its new content at its own place, and what was
found before at all others. -/
theorem found?_write (files : Files) {name own : Text} (written : files.place name = .file own)
    (content : ByteArray) (asked : Place) :
    (files.write name content).found? asked =
      if asked = .file own then some content else files.found? asked := by
  simp only [write, written]
  cases asked with
  | file other => simp [found?, Table.lookup_set]
  | directory => simp [found?]
  | nowhere => simp [found?]

end Files

end CommentMarkdown
