import PromptScript.Proofs.Headers

/-! # The text of a survey read again

A survey gives a document without its comments, under a header in normal form. Where that text is read into what is left
of the document, a chain over it tells nothing apart from a chain over the source. -/
namespace PromptScript

open Node (LikeAll)

namespace Chain

variable {σ : Type} {eval : Evaluator σ} (placeless : Expr.Placeless eval)

include placeless

/-- Chains that start over sources that say the same give the same, whatever the parameters are and whatever is answered. -/
theorem answers_of_start {source other : String} {d e : Document} {config : Config} {nodes nodes' : List Node}
    (parsed : Document.parse source.toList = .ok d) (parsed' : Document.parse other.toList = .ok e)
    (headed : Node.Headed d.body config nodes) (headed' : Node.Headed e.body config nodes')
    (like : LikeAll nodes nodes' ∨ LikeAll (Node.line :: nodes) nodes') (parameters : List (String × Value)) (format : Format)
    (options : Options) : ∃ chain chain', start source parameters format options = .ok chain ∧
      start other parameters format options = .ok chain' ∧ ∀ responses world,
        answers eval responses chain world = answers eval responses chain' world := by
  unfold start
  rw [parsed, parsed']
  refine ⟨_, _, rfl, rfl, fun responses world => ?_⟩
  refine answers_eq_of_likeAll placeless headed headed' like rfl ?_ rfl responses world
  exact (Grammar.unmarked_of_parse parsed).2.trans (Grammar.unmarked_of_parse parsed').2.symm

end Chain

namespace Source

/-- The text that a survey of a source gives, in its place. -/
def resolved (source : Source) (options : SurveyOptions) : Source := ⟨source.path, (source.survey options none).resolved⟩

/-- **A survey keeps what a document says** where the text that it gives is read into what is left of the document. If both
are surveyed without a defect and have the same settings, chains over the two tell nothing apart. -/
theorem resolved_says_same {source : Source} {options : SurveyOptions} {d e : Document}
    (parsed : Document.parse source.content.toList = .ok d) (plain : Node.refersAll d.body = false)
    (clean : (source.survey options none).diagnostics = [])
    (parsed' : Document.parse (source.resolved options).content.toList = .ok e) (plain' : Node.refersAll e.body = false)
    (clean' : ((source.resolved options).survey options none).diagnostics = [])
    (settings : ((source.resolved options).survey options none).config = (source.survey options none).config)
    (like : LikeAll (Node.headless d.body) (Node.headless e.body) ∨
      LikeAll (Node.line :: Node.headless d.body) (Node.headless e.body)) {σ : Type} (host : Host σ)
    (parameters : List (String × Value)) (format : Format) (asked : Options) :
    ∃ chain chain', Chain.start source.content parameters format asked = .ok chain ∧
      Chain.start (source.resolved options).content parameters format asked = .ok chain' ∧
      ∀ responses world, Chain.answers (Expr.eval host) responses chain world =
        Chain.answers (Expr.eval host) responses chain' world := by
  have headed := headed_of_clean parsed clean
  have headed' := headed_of_clean parsed' clean'
  rw [settings] at headed'
  exact Chain.answers_of_start (Expr.placeless_eval host) parsed parsed' headed headed' like parameters format asked

/-- The text of nodes that are nothing but text and comments. -/
def textOf? : List Node → Option String
  | [] => some ""
  | .text _ data none :: r => (textOf? r).map (data ++ ·)
  | .comment _ _ none :: r => textOf? r
  | _ :: _ => none

theorem run_of_textOf? : ∀ {nodes : List Node} {s : String}, textOf? nodes = some s → Node.Run false nodes s := by
  intro nodes
  induction nodes with
  | nil =>
    intro s h
    obtain rfl := Option.some.inj h
    exact .nil
  | cons n r ih =>
    intro s h
    unfold textOf? at h
    split at h
    · next whole => cases whole
    · next whole =>
      obtain ⟨rfl, rfl⟩ := List.cons.inj whole
      obtain ⟨s', later, rfl⟩ := Option.map_eq_some_iff.mp h
      exact .text rfl (ih later)
    · next whole =>
      obtain ⟨rfl, rfl⟩ := List.cons.inj whole
      exact .comment rfl (ih h)
    · cases h

/-- Whether a source is read into nothing but a given text, with comments in it. -/
def saysText (source : Source) (text : String) : Bool :=
  (Document.parse source.content.toList).toOption.any fun d =>
    !Node.refersAll d.body && textOf? (Node.headless d.body) == some text

theorem exists_of_saysText {source : Source} {text : String} (h : source.saysText text = true) :
    ∃ d, Document.parse source.content.toList = .ok d ∧ Node.refersAll d.body = false ∧
      Node.Run false (Node.headless d.body) text := by
  unfold saysText at h
  cases parsed : Document.parse source.content.toList with
  | error faults => rw [parsed] at h; cases h
  | ok d =>
    rw [parsed] at h
    obtain ⟨plain, text⟩ := Bool.and_eq_true_iff.mp h
    exact ⟨d, rfl, by simpa using plain, run_of_textOf? (beq_iff_eq.mp text)⟩

/-- A comment within a text. -/
def splitText : Source := ⟨"main", "hi /* to all */there"⟩

/-- Without the comment its text is the same. -/
theorem splitText_says_same :
    (splitText.survey {} none).diagnostics = [] ∧ ((splitText.resolved {}).survey {} none).diagnostics = [] ∧
      (splitText.resolved {}).content = "hi there" ∧
      ∃ chain chain', Chain.start splitText.content [] .canonical {} = .ok chain ∧
        Chain.start (splitText.resolved {}).content [] .canonical {} = .ok chain' ∧
        ∀ responses world, Chain.answers (Expr.eval Host.idle) responses chain world =
          Chain.answers (Expr.eval Host.idle) responses chain' world := by
  have clean : (splitText.survey {} none).diagnostics = [] ∧ ((splitText.resolved {}).survey {} none).diagnostics = [] ∧
      (splitText.resolved {}).content = "hi there" := by
    decide +kernel
  have texts : splitText.saysText "hi there" = true ∧ (splitText.resolved {}).saysText "hi there" = true := by
    decide +kernel
  have settings : (splitText.survey {} none).config = [] ∧ ((splitText.resolved {}).survey {} none).config = [] := by
    simp only [← List.isEmpty_iff]
    decide +kernel
  obtain ⟨d, parsed, plain, run⟩ := exists_of_saysText texts.1
  obtain ⟨e, parsed', plain', run'⟩ := exists_of_saysText texts.2
  have like : LikeAll (Node.headless d.body ++ []) (Node.headless e.body ++ []) := .run run run' .nil
  rw [List.append_nil, List.append_nil] at like
  exact ⟨clean.1, clean.2.1, clean.2.2, resolved_says_same parsed plain clean.1 parsed' plain' clean.2.1
    (settings.2.trans settings.1.symm) (.inl like) Host.idle [] .canonical {}⟩

/-- A comment between two braces. -/
def splitBraces : Source := ⟨"main", "\x7b/**/\x7b x \x7d\x7d"⟩

/-- What a chain over a source says first. -/
def firstTexts (source : String) (parameters : List (String × Value)) : Option (List String) :=
  (Chain.render (Expr.eval Host.idle) source parameters .canonical {} ⟨0, ()⟩).1.toOption.map fun result =>
    result.messages.map Json.toText

/-- Without the comment the braces open an interpolation. A survey finds no defect in the source, and what it makes of it is
the source without the comment; but it says something else. -/
theorem resolved_says_else :
    (splitBraces.survey {} none).diagnostics = [] ∧ (splitBraces.survey {} none).resolved = "\x7b\x7b x \x7d\x7d" ∧
      (Document.parse splitBraces.content.toList).toOption.map (fun d =>
        (Node.refersAll d.body, String.ofList (Text.outside (Node.cutsAll d.body) 0 splitBraces.content.toList))) =
        some (false, "\x7b\x7b x \x7d\x7d") ∧
      firstTexts splitBraces.content [("x", .string "1")] ≠
        firstTexts (splitBraces.survey {} none).resolved [("x", .string "1")] := by
  decide +kernel

end Source
end PromptScript
