import PromptScript.Proofs.Inlined
import PromptScript.Proofs.Tandem

/-! # References in circles

A reference is refused where the document it stands in has followed one to the same path before, on the way to it.
Which references a survey comes to does not depend on what they lead to. So `Circle` tells, without surveys of documents
within others, where a survey ends up in a circle. -/
namespace PromptScript

/-- Gives no document, and says which was asked for. -/
def Loader.refusing : Loader := fun path _ => .error path

namespace Source

end Source

/-- What is declared does not depend on what has been read. -/
theorem Usage.defined_defineAll {u v : Usage} (same : u.defined = v.defined) (names : List String) :
    (u.defineAll names).defined = (v.defineAll names).defined := by
  induction names generalizing u v with
  | nil => exact same
  | cons name r ih => exact ih (congrArg (Names.insert name) same)

namespace Survey

variable {loader : Loader}

/-- An analysis finds only what the document has by itself, and declares the same whatever may be read. -/
theorem analyze_alike {u v : Usage} (same : u.defined = v.defined) (e : Expr) :
    (e.analyze (u, [])).1.defined = (e.analyze (v, [])).1.defined ∧
      (∀ fault ∈ (e.analyze (u, [])).2, fault.defect.isLocal = true) ∧
      ∀ fault ∈ (e.analyze (v, [])).2, fault.defect.isLocal = true := by
  have reads {u : Usage} (name : String) (span : Span) :
      (u.read name span).1.defined = u.defined ∧ ∀ fault ∈ (u.read name span).2, fault.defect.isLocal = true := by
    unfold Usage.read
    split
    · exact ⟨rfl, List.forall_mem_nil _⟩
    · split
      · exact ⟨rfl, List.forall_mem_nil _⟩
      · refine ⟨rfl, fun fault mem => ?_⟩
        dsimp only at mem
        split at mem
        · cases mem
        · exact List.mem_singleton.mp mem ▸ rfl
  have lockstep : Lockstep fun s t => s.1.defined = t.1.defined ∧ (∀ fault ∈ s.2, fault.defect.isLocal = true) ∧
      ∀ fault ∈ t.2, fault.defect.isLocal = true := by
    constructor
    · rintro ⟨u, faults⟩ ⟨v, faults'⟩ ⟨same, fine, fine'⟩ name span
      obtain ⟨left, more⟩ := @reads u name span
      obtain ⟨right, more'⟩ := @reads v name span
      refine ⟨left.trans (same.trans right.symm), fun fault mem => ?_, fun fault mem => ?_⟩
      · exact (List.mem_append.mp mem).elim (fine fault) (more fault)
      · exact (List.mem_append.mp mem).elim (fine' fault) (more' fault)
    · rintro s t ⟨same, fine⟩ name
      exact ⟨congrArg (Names.insert name) same, fine⟩
    · rintro s t b c ⟨same, -⟩ ⟨-, fine⟩
      exact ⟨same, fine⟩
  have nothing : ∀ fault ∈ ([] : List Fault), fault.defect.isLocal = true := List.forall_mem_nil _
  exact Expr.analyze_lockstep lockstep e ⟨same, nothing, nothing⟩

/-! ## Where a survey ends up in a circle -/

/-- The references followed so far, as pairs of a document's path and the path followed from there. -/
def Lists (table : List (String × List String)) (branch : List (String × String)) : Prop :=
  ∀ here path, path ∈ (Fields.get? here table).getD [] ↔ (here, path) ∈ branch

theorem Lists.follow {table : List (String × List String)} {branch : List (String × String)} (h : Lists table branch)
    (here path : String) :
    Lists (Fields.set here ((Fields.get? here table).getD [] ++ [path]) table) ((here, path) :: branch) := by
  intro other next
  by_cases same : other = here
  · subst same
    rw [Fields.get?_set_same, Option.getD_some, List.mem_append, List.mem_singleton, h, List.mem_cons, Prod.mk.injEq]
    exact ⟨fun mem => mem.elim .inr fun last => .inl ⟨rfl, last⟩, fun mem => mem.elim (.inr ·.2) .inl⟩
  · rw [Fields.get?_set_other same, h, List.mem_cons, Prod.mk.injEq]
    exact ⟨.inr, fun mem => mem.resolve_left fun first => same first.1⟩

/-- A survey of a source beside one that is refused every document: the circles of the one are those references of the
other that close one. -/
structure Noted (source : Source) (table : List (String × List String)) (closes : String → Prop)
    (s t : SurveyState) : Prop where
  here : s.source = source
  followed : s.followed = table
  fresh : t.followed = []
  circular : ∀ span, ⟨.circularReference, span⟩ ∈ s.faults ↔
    ∃ path, ⟨.referenceFailed path, span⟩ ∈ t.faults ∧ closes path
  named : ∀ span path, ⟨.referenceFailed path, span⟩ ∈ t.faults → path ∈ source.mentions

theorem mem_append_local {faults more : List Fault} (fine : ∀ fault ∈ more, fault.defect.isLocal = true) {fault : Fault}
    (other : fault.defect.isLocal = false) : fault ∈ faults ++ more ↔ fault ∈ faults := by
  refine ⟨fun mem => (List.mem_append.mp mem).resolve_right fun mem => ?_, List.mem_append_left _⟩
  rw [fine fault mem] at other
  cases other

section Noting

variable {source : Source} {table : List (String × List String)} {closes : String → Prop} {s t s' t' : SurveyState}

/-- What a document has by itself changes nothing. -/
theorem Noted.more (h : Noted source table closes s t) {l l' : List Fault}
    (left : s'.source = s.source ∧ s'.followed = s.followed ∧ s'.faults = s.faults ++ l)
    (right : t'.followed = t.followed ∧ t'.faults = t.faults ++ l')
    (fine : ∀ fault ∈ l, fault.defect.isLocal = true) (fine' : ∀ fault ∈ l', fault.defect.isLocal = true) :
    Noted source table closes s' t' where
  here := left.1.trans h.here
  followed := left.2.1.trans h.followed
  fresh := right.1.trans h.fresh
  circular span := by
    rw [left.2.2, right.2, mem_append_local fine rfl, h.circular]
    exact exists_congr fun path => and_congr_left fun _ => (mem_append_local fine' rfl).symm
  named span path mem := by
    rw [right.2, mem_append_local fine' rfl] at mem
    exact h.named span path mem

theorem Noted.stays (h : Noted source table closes s t) {x y : Survey PUnit} (hx : Stays x) (hy : Stays y) :
    Noted source table closes (x.run s).2 (y.run t).2 := by
  obtain ⟨source, followed, l, adds, fine⟩ := hx s
  obtain ⟨-, fresh, l', adds', fine'⟩ := hy t
  exact h.more ⟨source, followed, adds⟩ ⟨fresh, adds'⟩ fine fine'

theorem Noted.kept (check : Option (Config → Option String)) :
    Kept check none (fun u v => u.defined = v.defined)
      (fun l l' => (∀ fault ∈ l, fault.defect.isLocal = true) ∧ ∀ fault ∈ l', fault.defect.isLocal = true)
      (Noted source table closes) where
  defined same := same
  analyze same e := analyze_alike same e
  absorb same _ := same
  defineAll same names := Usage.defined_defineAll same names
  closed _ _ := rfl
  missing _ given span _ _ h := h.stays (.reportMissing _ given span) (.reportMissing _ given span)
  same defect span h :=
    ⟨fun _ mem => List.mem_singleton.mp mem ▸ h, fun _ mem => List.mem_singleton.mp mem ▸ h⟩
  found h found := h.more ⟨rfl, rfl, rfl⟩ ⟨rfl, rfl⟩ found.1 found.2
  calls h := h.stays .reportCalls .reportCalls
  header h atRoot span data := h.stays (.header check atRoot span data) (.header none atRoot span data)
  still {s t} h f same := by
    obtain ⟨source, followed, faults⟩ := same s
    obtain ⟨-, fresh, faults'⟩ := same t
    exact h.more ⟨source, followed, faults.trans (List.append_nil _).symm⟩ ⟨fresh, faults'.trans (List.append_nil _).symm⟩
      nofun nofun

/-- A reference that is come to is noted, and what is found there is noted if it closes a circle. -/
theorem Noted.refer (h : Noted source table closes s t) {path : String} {span : Span} {more : List Fault}
    (mem : path ∈ source.mentions)
    (left : s'.source = s.source ∧ s'.followed = s.followed ∧ s'.faults = s.faults ++ more)
    (right : t'.followed = t.followed ∧ t'.faults = t.faults ++ [⟨.referenceFailed path, span⟩])
    (closing : ∀ span', ⟨.circularReference, span'⟩ ∈ more ↔ span' = span ∧ closes path) :
    Noted source table closes s' t' where
  here := left.1.trans h.here
  followed := left.2.1.trans h.followed
  fresh := right.1.trans h.fresh
  circular span' := by
    simp only [left.2.2, right.2, List.mem_append, List.mem_singleton, closing, h.circular, Fault.mk.injEq,
      Defect.referenceFailed.injEq]
    constructor
    · rintro (⟨other, noted, close⟩ | ⟨rfl, close⟩)
      · exact ⟨other, .inl noted, close⟩
      · exact ⟨path, .inr ⟨rfl, rfl⟩, close⟩
    · rintro ⟨other, noted | ⟨rfl, rfl⟩, close⟩
      · exact .inl ⟨other, noted, close⟩
      · exact .inr ⟨rfl, close⟩
  named span' other noted := by
    rw [right.2] at noted
    rcases List.mem_append.mp noted with noted | noted
    · exact h.named span' other noted
    · cases List.mem_singleton.mp noted
      exact mem

/-- Who is refused every document finds at a reference that it is refused this one. -/
theorem run_include?_refusing {including : Include} {span : Span} {path : String} {given : Names}
    (fresh : t.followed = []) : (include? .refusing including span path given).run t =
      (none, { t with faults := t.faults ++ [⟨.referenceFailed path, span⟩] }) := by
  have open_ : (Fields.get? t.source.path t.followed).getD [] = [] := by
    rw [fresh]
    rfl
  unfold include?
  rw [run_get]
  dsimp only
  rw [open_]
  rfl

/-- Surveys beside one that is refused everything are noted if what they reach is. -/
theorem Noted.follow {including : Option Include} (check : Option (Config → Option String))
    (h : ∀ span attributes path given s t, mentioned? attributes = some path → path ∈ source.mentions →
      Noted source table closes s t → ∃ more,
        let done := ((reach loader including span attributes given).run s).2
        (done.source = s.source ∧ done.followed = s.followed ∧ done.faults = s.faults ++ more) ∧
        ∀ span', ⟨.circularReference, span'⟩ ∈ more ↔ span' = span ∧ closes path) :
    Follow.Beside (Noted source table closes) (fun u v => u.defined = v.defined) (follow (some loader) including)
      (followTo .refusing 1) source.mentions := by
  refine (Noted.kept check).follow fun span attributes given known => ?_
  rw [including_succ]
  cases mention : mentioned? attributes with
  | none =>
    rw [reach_of_none mention]
    cases including with
    | none => exact .of_states fun s t related => related.stays (.report span rfl) (.pure ())
    | some including =>
      rw [reach_of_none mention]
      exact .pure trivial
  | some path =>
    refine .of_states fun s t related => ?_
    obtain ⟨more, stays, closing⟩ := h span attributes path given s t mention (known path mention) related
    refine related.refer (known path mention) stays ?_ closing
    rw [reach_of_some mention, run_replaceReference, run_include?_refusing related.fresh]
    exact ⟨rfl, rfl⟩

end Noting

end Survey

namespace Source

variable {loader : Loader}

end Source
end PromptScript

/-! ## What becomes of references

A survey comes to an end whatever documents there are: it looks for none behind a limit of depth. Where it has been
before it says so, and where it finds no defect it has put in all documents that the source leads to. -/
namespace PromptScript

namespace Source

variable {source : Source} {options : SurveyOptions} {loader loader' : Loader}

/-- The report on a walk through a document, which lacks a header or has all it needs. -/
def reported (requiresConfig : Bool) (source : Source) (done : Usage × SurveyState) : Report :=
  { done.2 with faults := done.2.faults ++
    if requiresConfig && done.2.config.isNone then [⟨.missingConfig, ⟨0, 0⟩⟩] else [] : SurveyState }.report
      (Survey.parsed source).1 done.1

end Source
end PromptScript
