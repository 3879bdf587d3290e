import PromptScript.Proofs.Headings

/-! # Derivations are readings

A derivation tells what is read without the bound on the depth of the reading. With bounds that are great enough the
reading succeeds as the derivation tells, and the bound on the reading of a source is great enough. So a source is read as
a document just if there is a derivation of it. -/
namespace PromptScript
namespace Grammar

/-- From some bound on, a part is read. -/
def Part.Readable : Part → Cursor → Cursor → Prop
  | .nodes root seen body e seen', c, c' => Runs (readNodes · root seen) c (.ok ((body, e, seen'), c'))
  | .next root seen n, c, c' => Runs (readNext · root seen) c (.ok (n, c'))
  | .block b start seen node seen', c, c' => Runs (readBlock · b start seen) c (.ok ((node, seen'), c'))
  | .branches b seen body otherwise seen', c, c' =>
    ∀ start, Runs (readBranches · b start seen) c (.ok ((body, otherwise, seen'), c'))
  | .element tag seen node seen', c, c' => Runs (readElement · tag seen) c (.ok ((node, seen'), c'))

/-- What ends a block is no other word. -/
theorem gives_ends {b : Block} {e : Ending} (ends : b.endedBy e = true) {body : List Node} {seen : Seen} {start : Nat} {c : Cursor}
    {otherwise : Span → Reading (List Node × Option (List Node) × Seen)} :
    Gives (match e with
      | .elseMark span => otherwise span
      | e => if b.endedBy e then pure (body, none, seen) else failEnding b.word start e) c (body, none, seen) c := by
  cases e with
  | elseMark => cases b <;> cases ends
  | source | endIf | endFor | close =>
    show Gives (if b.endedBy _ then _ else _) _ _ _
    rw [if_pos ends]
    exact gives_pure.mpr ⟨rfl, rfl⟩

theorem run_readNext_braces {fuel length : Nat} {root : Bool} {seen : Seen} {opening : Opening} {next : Next} {c c' : Cursor}
    (lead : leadOf root seen c.rest = .braces) (opens : openingAt (afterBraces c).rest = (opening, length))
    (reads : Gives (readOpened fuel c.offset seen opening) ((afterBraces c).skip length) next c') :
    (readNext (fuel + 1) root seen).run c = .ok (next, c') := by
  refine run_readNext lead (Gives.skip (.skipSpaces (show _ = afterBraces c from rfl) (.rest ?_)))
  rw [opens]
  exact .skip reads

theorem Reads.readable {part : Part} {c c' : Cursor} (h : Reads part c c') : part.Readable c c' := by
  -- What bounds the reading of a part is the sum of the bounds for what is in it, and one for the part itself.
  induction h with
  | done last ih =>
    obtain ⟨n, ih⟩ := ih
    exact .succ n fun m le => Gives.bind (ih m le) (gives_pure.mpr ⟨rfl, rfl⟩)
  | more first rest ih ih' =>
    obtain ⟨n, ih⟩ := ih
    obtain ⟨n', ih'⟩ := ih'
    refine .succ (n + n') fun m le => Gives.bind (ih m (by omega)) ?_
    exact .bind (ih' m (by omega)) (gives_pure.mpr ⟨rfl, rfl⟩)
  | source lead => exact .succ 0 fun m _ => run_readNext lead rfl
  | mark lead opens closes =>
    refine .succ 0 fun m _ => run_readNext_braces lead opens (Gives.bind closes (.offset (gives_pure.mpr ⟨?_, rfl⟩)))
    rcases openingAt_ending opens with rfl | rfl | rfl <;> rfl
  | close lead closes => exact .succ 0 fun m _ => run_readNext lead (run_bind_gives closes (gives_pure.mpr ⟨rfl, rfl⟩))
  | block lead opens _ ih =>
    obtain ⟨n, ih⟩ := ih
    exact .succ n fun m le => run_readNext_braces lead opens (Gives.bind (ih m le) (gives_pure.mpr ⟨rfl, rfl⟩))
  | value lead opens reads =>
    exact .succ 0 fun m _ => run_readNext_braces lead opens (Gives.bind reads (gives_pure.mpr ⟨rfl, rfl⟩))
  | comment lead reads => exact .succ 0 fun m _ => run_readNext lead (run_bind_gives reads (gives_pure.mpr ⟨rfl, rfl⟩))
  | tag lead _ ih =>
    obtain ⟨n, ih⟩ := ih
    exact .succ n fun m le => run_readNext lead (run_bind_gives (ih m le) (gives_pure.mpr ⟨rfl, rfl⟩))
  | header lead reads => exact .succ 0 fun m _ => run_readNext lead (run_bind_gives reads (gives_pure.mpr ⟨rfl, rfl⟩))
  | text lead reads => exact .succ 0 fun m _ => run_readNext lead (run_bind_gives reads (gives_pure.mpr ⟨rfl, rfl⟩))
  | choice head _ ih =>
    obtain ⟨n, ih⟩ := ih _
    exact .succ n fun m le => Gives.bind head (.bind (ih m le) (.offset (gives_pure.mpr ⟨rfl, rfl⟩)))
  | loop heads _ ih =>
    obtain ⟨n, ih⟩ := ih _
    exact .succ n fun m le => Gives.bind heads (.bind (ih m le) (.offset (gives_pure.mpr ⟨rfl, rfl⟩)))
  | single _ ends ih =>
    obtain ⟨n, ih⟩ := ih
    exact fun start => .succ n fun m le => Gives.bind (ih m le) (gives_ends ends)
  | double _ _ ends ih ih' =>
    obtain ⟨n, ih⟩ := ih
    obtain ⟨n', ih'⟩ := ih'
    refine fun start => .succ (n + n') fun m le => Gives.bind (ih m (by omega)) (.bind (ih' m (by omega)) ?_)
    dsimp only
    rw [if_pos ends]
    exact gives_pure.mpr ⟨rfl, rfl⟩
  | alone head =>
    refine .succ 0 fun m _ => Gives.offset (.skip (.rest (.bind head ?_)))
    exact .offset (gives_pure.mpr ⟨rfl, rfl⟩)
  | @around tag _ _ _ _ _ _ _ _ head _ ih =>
    obtain ⟨n, ih⟩ := ih
    refine .succ n fun m le => Gives.offset (.skip (.rest (.bind head (.bind (ih m le) ?_))))
    show Gives (if tag = tag then _ else _) _ _ _
    rw [if_pos rfl]
    exact .offset (gives_pure.mpr ⟨rfl, rfl⟩)

/-- **A source with a derivation is read.** -/
theorem parse_of_reads {source : List Char} {body : List Node} {seen : Seen} {c : Cursor}
    (h : Reads (.nodes true ⟨false, false⟩ body .source seen) (.start source) c) :
    Document.parse source = .ok ⟨⟨0, c.offset⟩, body, none⟩ := by
  obtain ⟨n, reads⟩ := h.readable
  let enough := n + 4 * (source.length + 1)
  have settled := (unbounded source).nodes enough (Nat.le_add_left ..)
  have nodes : Gives (readNodes (4 * (source.length + 1)) true ⟨false, false⟩) (.start source) (body, .source, seen) c :=
    settled.symm.trans (reads enough (Nat.le_add_right ..))
  have whole : Gives readDocument (.start source) ⟨⟨0, c.offset⟩, body, none⟩ c :=
    .rest (.bind nodes (.offset (gives_pure.mpr ⟨rfl, rfl⟩)))
  unfold Document.parse
  rw [show readDocument.run (.start source) = .ok (_, c) from whole]

end Grammar
end PromptScript
