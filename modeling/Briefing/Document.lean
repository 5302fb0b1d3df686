import Briefing.Files.Disk
import Briefing.FrontMatter.Split

/-!
# Documents

A document is a text file in two parts, its frontmatter and its content. The tokens of a text are
estimated as a fourth of its characters. A document that goes into a prompt carries the count of its
tokens, which is made when it is read and again whenever its content is replaced.
-/

namespace Briefing

/-- The estimated number of tokens of a text. -/
def estimateTokens (text : String) : Nat := text.length / 4

/-- A file with frontmatter. -/
structure Document where
  path : Path
  frontMatter : FrontMatter
  content : String

/-- A document with a count of the tokens of its content beside it. -/
structure CountedDocument extends Document where
  /-- Counted from the content unless it is given. -/
  tokens : Nat := estimateTokens content

namespace Document

/-- The document with its tokens counted. -/
def counted (d : Document) : CountedDocument := { d with tokens := estimateTokens d.content }

@[simp] theorem counted_toDocument (d : Document) : d.counted.toDocument = d := rfl

/-- The name by which the document is found: its file name without the extension. -/
def stem (d : Document) : String := d.path.stem

/-- The document that a file's text makes. -/
def parse (path : Path) (text : String) : Except FrontMatter.Fault Document := do
  let (yaml, content) ← FrontMatter.split text
  match yaml with
  | some yaml => return ⟨path, ← FrontMatter.parse yaml, content⟩
  | none => return ⟨path, ∅, content⟩

end Document

namespace CountedDocument

/-- Replaces the content and counts its tokens again. -/
def setContent (d : CountedDocument) (content : String) : CountedDocument :=
  { d with content, tokens := estimateTokens content }

def toJson (d : CountedDocument) : Json :=
  .object [("path", .string d.path.text), ("frontmatter", FrontMatter.toJson d.frontMatter),
    ("content", .string d.content), ("tokens", .int d.tokens)]

end CountedDocument

end Briefing
