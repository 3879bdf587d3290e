import PromptScript.Proofs.Closures
import PromptScript.Proofs.Placed

/-! # What surveys accept

Where a survey finds no defect all tags of the document stand where they may and all its closed parts are closed. No
call of a chain over the document then finds it otherwise. The survey looks at each document for itself: where the
text of another takes the place of a reference, tags of the one may come to stand where they must not in the other. -/
namespace PromptScript

namespace Survey

/-- What a pass knows of the place where a survey visits a node. -/
def Setting.around (at_ : Setting) : Surroundings := ⟨at_.inStep, at_.inMessage, at_.inContent⟩

variable {refers : Bool} (check : Option (Config → Option String)) (loader : Option Loader) (including : Option Include)

mutual

/-- **A clean survey of a node finds all tags in it where they may stand.** -/
theorem walk_placed (at_ : Setting) : ∀ n : Node, (n.refers = true → refers = true) → ∀ u : Usage,
    Cleanly (fun _ => n.isPlaced refers at_.around = true) (walk check (follow loader including) at_ n u)
  | .text _ data _, _, u => by
    unfold walk
    split
    · exact Cuts.markContent.cleanly.andThen fun _ => .pure rfl
    · exact .pure rfl
  | .comment span _ _, _, _ => (Cuts.splice span).cleanly.andThen fun _ => .pure rfl
  | .config .., _, _ => (Cuts.header ..).cleanly.andThen fun _ => .pure rfl
  | .interpolation _ e _, _, u =>
    Cuts.markContent.cleanly.andThen fun _ => (Cuts.track e u).cleanly.mono fun _ _ => rfl
  | .group _ body _, known, u => walkAll_placed at_ body known u
  | .choice _ test body none _, known, u =>
    (Cuts.track test u).cleanly.andThen fun u => (walkAll_placed _ body known u).bind fun _ => .pure id
  | .choice _ test body (some other) _, known, u => by
    refine (Cuts.track test u).cleanly.andThen fun u => ?_
    refine (walkAll_placed _ body (fun first => known (Bool.or_eq_true_iff.mpr (.inl first))) u).bind fun _ => ?_
    refine (walkAll_placed _ other (fun second => known (Bool.or_eq_true_iff.mpr (.inr second))) _).bind fun _ => .pure ?_
    exact fun second first => Bool.and_eq_true_iff.mpr ⟨first, second⟩
  | .loop _ items item index body none _, known, u => by
    refine (Cuts.track items u).cleanly.andThen fun u => ?_
    exact (loopBody_cleanly (fun u => walkAll_placed _ body known u) item index u).mono fun _ ⟨_, placed, _⟩ => placed
  | .loop _ items item index body (some other) _, known, u => by
    refine (Cuts.track items u).cleanly.andThen fun u => ?_
    refine (walkAll_placed _ other (fun second => known (Bool.or_eq_true_iff.mpr (.inr second))) u).bind fun _ => ?_
    refine (loopBody_cleanly (fun u => walkAll_placed _ body (fun first => known (Bool.or_eq_true_iff.mpr (.inl first))) u)
      item index _).mono fun _ ⟨_, first, _⟩ second => ?_
    exact Bool.and_eq_true_iff.mpr ⟨first, second⟩
  | .element span tag attributes body _, known, u => by
    have inside (at_ : Setting) (u : Usage) := walkAll_placed at_ body (fun r => known (Bool.or_eq_true_iff.mpr (.inr r))) u
    have named (static : List String) := (Cuts.attributeNames static attributes [] u).cleanly
    refine Cuts.markContent.cleanly.andThen fun _ => ?_
    cases tag with
    | content kind =>
      refine (content_cleanly (inside _) _ span kind (named []) fun _ => trivial).mono ?_
      rintro _ ⟨out, _, _, -, placed⟩
      exact Bool.and_eq_true_iff.mpr ⟨(Bool.not_eq_true' _).mpr (Bool.eq_false_iff.mpr out), placed⟩
    | message role =>
      refine (message_cleanly (inside _) _ span role (named [])).mono ?_
      rintro _ ⟨out, _, _, -, placed⟩
      refine Bool.and_eq_true_iff.mpr ⟨(Bool.not_eq_true' _).mpr ?_, placed⟩
      exact (Bool.or_comm _ _).trans (Bool.eq_false_iff.mpr out)
    | scope => exact (closed_cleanly (inside _) span (named [])).mono fun _ ⟨_, _, _, placed, _⟩ => placed
    | step =>
      refine (step_cleanly (inside _) _ span (named stepResultNames)).mono ?_
      rintro _ ⟨out, _, _, _, -, placed, -⟩
      exact Bool.and_eq_true_iff.mpr ⟨(Bool.not_eq_true' _).mpr (Bool.eq_false_iff.mpr out), placed⟩
    | reference => exact (follow_cleanly loader including span (named ["path"]) body).mono fun _ _ => known rfl

theorem walkAll_placed (at_ : Setting) : ∀ nodes : List Node, (Node.refersAll nodes = true → refers = true) → ∀ u : Usage,
    Cleanly (fun _ => Node.allPlaced refers at_.around nodes = true) (walkAll check (follow loader including) at_ nodes u)
  | [], _, _ => .pure rfl
  | n :: r, known, u => by
    refine (walk_placed at_ n (fun first => known (Bool.or_eq_true_iff.mpr (.inl first))) u).bind fun u => ?_
    refine (walkAll_placed at_ r (fun second => known (Bool.or_eq_true_iff.mpr (.inr second))) u).mono ?_
    exact fun _ second first => Bool.and_eq_true_iff.mpr ⟨first, second⟩

end

end Survey

namespace Source

variable {source : Source} {options : SurveyOptions} {d : Document}

theorem placed (parsed : Document.parse source.content.toList = .ok d)
    (clean : (source.survey options none).diagnostics = []) : Node.allPlaced (Node.refersAll d.body) {} d.body = true := by
  have walked := Survey.visit_cleanly (Survey.walkAll_placed options.check options.loader
    (Survey.including options.loader Survey.referenceLimit) { atRoot := true } d.body id _)
  obtain ⟨-, placed, -⟩ := of_clean parsed clean walked
  exact placed

theorem closed (parsed : Document.parse source.content.toList = .ok d) (free : options.parameters = none)
    (spelled : Node.allSpelled d.body = true) (clean : (source.survey options none).diagnostics = []) :
    ∀ part ∈ Node.closedPartsAll d.body, part.Accepted := by
  have walked := Survey.visit_cleanly (Survey.walkAll_closes options.check (Survey.follow_closes options.loader _)
    { atRoot := true } d.body (Grammar.plain_of_parse parsed) spelled _)
  obtain ⟨-, ⟨-, accepted⟩, -⟩ := of_clean parsed clean walked
  exact accepted (by rw [free]; rfl)

/-- **What a survey accepts.** It finds no defect in a document. Then no call of a chain over the document finds a tag
misplaced, nor a reference if there is none. Where reads are free, and content tags have their attributes written out,
every closed part can be entered when its attributes have values. And a document without references, comments and
header is left as it is. -/
theorem accepted {σ : Type} (host : Host σ) (parsed : Document.parse source.content.toList = .ok d)
    (clean : (source.survey options none).diagnostics = []) :
    (∀ parameters format settings chain responses world diagnostic,
      Chain.start source.content parameters format settings = .ok chain →
      .error (.document diagnostic) ∈ (Chain.calls (Expr.eval host) responses chain world).1 →
      diagnostic.defect.isMisplaced (Node.refersAll d.body) = false) ∧
    (options.parameters = none → Node.allSpelled d.body = true → ∀ part ∈ Node.closedPartsAll d.body,
      ∀ values : Attributes, (∀ a ∈ part.attributes, a.name ∈ Fields.names values) →
        (Pass.newScope values part.body : Pass σ Scope) = pure (Scope.ofList values)) ∧
    (Node.refersAll d.body = false → Node.cutsAll d.body = [] → (source.survey options none).config = [] →
      (source.survey options none).resolved = source.content) := by
  refine ⟨fun parameters format settings chain responses world diagnostic begins failed => ?_,
    fun free spelled part member values named => ?_, fun plain bare unset => ?_⟩
  · obtain ⟨-, -, -, -, -, -, parsed', -⟩ := Chain.start_eq_ok begins
    obtain rfl := Except.ok.inj (parsed.symm.trans parsed')
    exact Chain.calls_mild (Expr.mild_eval host) (placed parsed clean) responses world failed
  · unfold Pass.newScope
    rw [closed parsed free spelled clean part member (Fields.names values) named]
  · rw [resolved_eq_cutAll parsed plain clean, bare, unset]
    exact String.ofList_toList

/-- A message and a step in a closed part. -/
def closedGreeting : Source :=
  ⟨"main", "<scope name=\"Ada\"><user><content-text>\x7b\x7b name \x7d\x7d</content-text></user>" ++
    "<step as=\"answer\">ask</step>\x7b\x7b answer \x7d\x7d</scope>"⟩

/-- It is accepted: its text is left as it is, its closed part can be entered, and no call finds a tag misplaced. -/
theorem closedGreeting_accepted : ∃ d, Document.parse closedGreeting.content.toList = .ok d ∧
    (closedGreeting.survey {} none).diagnostics = [] ∧ (closedGreeting.survey {} none).resolved = closedGreeting.content ∧
    (Node.closedPartsAll d.body).map (·.attributes.map Attribute.name) = [["name"]] ∧
    (∀ part ∈ Node.closedPartsAll d.body,
      (Pass.newScope [("name", .string "Ada")] part.body : Pass Unit Scope) = pure (Scope.ofList [("name", .string "Ada")])) ∧
    ∀ chain responses world diagnostic, Chain.start closedGreeting.content [] .canonical {} = .ok chain →
      .error (.document diagnostic) ∈ (Chain.calls (Expr.eval Host.idle) responses chain world).1 →
      diagnostic.defect.isMisplaced false = false := by
  have fine : (Document.parse closedGreeting.content.toList).toOption.map (fun d =>
      (Node.refersAll d.body, (Node.cutsAll d.body).isEmpty, Node.allSpelled d.body,
        (Node.closedPartsAll d.body).map (·.attributes.map Attribute.name))) = some (false, true, true, [["name"]]) := by
    decide +kernel
  have clean : (closedGreeting.survey {} none).diagnostics = [] := by decide +kernel
  have unset : (closedGreeting.survey {} none).config = [] := by decide +kernel
  cases parsed : Document.parse closedGreeting.content.toList with
  | error diagnostic => rw [parsed] at fine; cases fine
  | ok d =>
    rw [parsed] at fine
    obtain ⟨plain, fine⟩ := Prod.mk.inj (Option.some.inj fine)
    obtain ⟨bare, fine⟩ := Prod.mk.inj fine
    obtain ⟨spelled, parts⟩ := Prod.mk.inj fine
    obtain ⟨calls, scopes, kept⟩ := accepted Host.idle parsed clean
    refine ⟨d, rfl, clean, kept plain (List.isEmpty_iff.mp bare) unset, parts, fun part member => ?_, ?_⟩
    · have named : part.attributes.map Attribute.name ∈ [["name"]] := parts ▸ List.mem_map_of_mem member
      refine scopes rfl spelled part member _ fun a there => ?_
      rw [show Fields.names [("name", Value.string "Ada")] = ["name"] from rfl, ← List.mem_singleton.mp named]
      exact List.mem_map_of_mem there
    · rw [plain] at calls
      exact fun chain responses world diagnostic => calls [] .canonical {} chain responses world diagnostic

/-- A message in the place of a reference within a message. -/
def pastedMessage : Source := ⟨"main", "<user><prompt path=\"a\"/></user>"⟩

/-- There is one other document, and it is a message. -/
def messageLoader : Loader := fun path _ => .ok (if path = "a" then some ⟨"a", "<user>hi</user>"⟩ else none)

/-- Neither document has a defect, and yet the text of the two together has one: the first call finds a message within
a message. -/
theorem pasted_misplaced :
    (pastedMessage.survey { loader := some messageLoader } none).diagnostics = [] ∧
    (pastedMessage.survey { loader := some messageLoader } none).resolved =
      "<user><scope><user>hi</user></scope></user>" ∧
    ∃ chain diagnostic, Chain.start "<user><scope><user>hi</user></scope></user>" [] .canonical {} = .ok chain ∧
      (Chain.calls (Expr.eval Host.idle) [none] chain ⟨0, ()⟩).1 = [.error (.document diagnostic)] ∧
      diagnostic.defect = .messageTagInsideMessage := by
  have failed : ((Chain.start "<user><scope><user>hi</user></scope></user>" [] .canonical {}).toOption.map fun chain =>
      (Chain.calls (Expr.eval Host.idle) [none] chain ⟨0, ()⟩).1.map Chain.defectOf?) =
        some [some .messageTagInsideMessage] := by decide +kernel
  refine ⟨by decide +kernel, by decide +kernel, ?_⟩
  cases begins : Chain.start "<user><scope><user>hi</user></scope></user>" [] .canonical {} with
  | error fault => rw [begins] at failed; cases failed
  | ok chain =>
    rw [begins] at failed
    refine ⟨chain, ?_⟩
    obtain ⟨result, called, first⟩ := List.map_eq_singleton_iff.mp (Option.some.inj failed)
    obtain ⟨diagnostic, rfl, same⟩ := Chain.defectOf?_eq_some_iff.mp first
    exact ⟨diagnostic, rfl, called, same⟩

end Source
end PromptScript
