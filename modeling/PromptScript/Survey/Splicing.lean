import PromptScript.Text.Span

/-! # Splicing

A text in which spans are replaced one after the other. Spans are given as they lie in the text at the start; a
running shift leads from there to where they lie now. -/
namespace PromptScript

structure Splicing where
  text : List Char
  /-- How much longer the replacements are than what they replaced. -/
  shift : Int
  deriving Inhabited, Repr

namespace Splicing

/-- A text without replacements. -/
def start (text : List Char) : Splicing := ⟨text, 0⟩

/-- Where an offset lies now. -/
def shifted (s : Splicing) (offset : Nat) : Nat := ((offset : Int) + s.shift).toNat

/-- Where a span lies now. -/
def place (s : Splicing) (span : Span) : Span := ⟨s.shifted span.start, s.shifted span.stop⟩

/-- The text that a span covers now. -/
def slice (s : Splicing) (span : Span) : List Char := Text.slice s.text (s.place span)

/-- Replaces a span. -/
def replace (s : Splicing) (span : Span) (new : List Char) : Splicing :=
  let p := s.place span
  ⟨Text.takeBytes p.start s.text ++ new ++ Text.dropBytes p.stop s.text,
    s.shift + Text.byteLength new - ((p.stop : Int) - p.start)⟩

theorem shifted_start (text : List Char) (offset : Nat) : (start text).shifted offset = offset := by
  simp [start, shifted]

theorem slice_start (text : List Char) (span : Span) : (start text).slice span = Text.slice text span := by
  simp only [slice, place, shifted_start]
  rfl

end Splicing
end PromptScript
