import PromptScript.Document.Closure

/-! # Analyses side by side

The analysis of an expression or of nodes reads names, declares names and goes into branches, and looks at nothing
that it has found. A relation between the states of two analyses that these three keep (`Lockstep`) is therefore kept by
the analysis of anything. -/
namespace PromptScript

/-- A relation between the states of two analyses that whatever they do keeps. -/
structure Lockstep (related : Usage × List Fault → Usage × List Fault → Prop) : Prop where
  read : ∀ {s t}, related s t → ∀ name span, related ((s.1.read name span).1, s.2 ++ (s.1.read name span).2)
    ((t.1.read name span).1, t.2 ++ (t.1.read name span).2)
  define : ∀ {s t}, related s t → ∀ name, related (s.1.define name, s.2) (t.1.define name, t.2)
  branch : ∀ {s t b c}, related s t → related b c → related (Node.afterBranch s.1 b) (Node.afterBranch t.1 c)

variable {related : Usage × List Fault → Usage × List Fault → Prop} {s t : Usage × List Fault}

theorem Lockstep.defineAll (lockstep : Lockstep related) (names : List String) (h : related s t) :
    related (s.1.defineAll names, s.2) (t.1.defineAll names, t.2) := by
  induction names generalizing s t with
  | nil => exact h
  | cons name names ih => exact ih (lockstep.define h name)

namespace Expr

mutual

theorem analyze_lockstep (lockstep : Lockstep related) : ∀ (e : Expr) {s t : Usage × List Fault}, related s t →
    related (e.analyze s) (e.analyze t)
  | literal _ _, _, _, h => h
  | identifier span name, (_, _), (_, _), h => lockstep.read h name span
  | array _ items, _, _, h | sequence _ items, _, _, h => analyzeItems_lockstep lockstep items h
  | object _ fields, _, _, h => analyzeFields_lockstep lockstep fields h
  | unary _ _ e, _, _, h | update _ _ _ e, _, _, h | chain _ e, _, _, h => analyze_lockstep lockstep e h
  | binary _ _ a b, _, _, h | logical _ _ a b, _, _, h => analyze_lockstep lockstep b (analyze_lockstep lockstep a h)
  | conditional _ test a b, _, _, h => analyze_lockstep lockstep b (analyze_lockstep lockstep a (analyze_lockstep lockstep test h))
  | assignment _ op target value, _, _, h => by
    have first := analyze_lockstep lockstep value h
    have second := analyze_lockstep lockstep target first
    cases op with
    | assign =>
      cases target with
      | identifier _ name => exact lockstep.define first name
      | _ => exact second
    | _ => exact second
  | member _ base key _, _, _, h => analyzeKey_lockstep lockstep key (analyze_lockstep lockstep base h)
  | call _ callee arguments _, _, _, h => analyzeItems_lockstep lockstep arguments (analyze_lockstep lockstep callee h)

theorem analyzeItems_lockstep (lockstep : Lockstep related) : ∀ (items : List Expr) {s t : Usage × List Fault}, related s t →
    related (analyzeItems items s) (analyzeItems items t)
  | [], _, _, h => h
  | e :: r, _, _, h => analyzeItems_lockstep lockstep r (analyze_lockstep lockstep e h)

theorem analyzeFields_lockstep (lockstep : Lockstep related) : ∀ (fields : List (Key × Expr)) {s t : Usage × List Fault},
    related s t → related (analyzeFields fields s) (analyzeFields fields t)
  | [], _, _, h => h
  | (key, e) :: r, _, _, h => analyzeFields_lockstep lockstep r (analyze_lockstep lockstep e (analyzeKey_lockstep lockstep key h))

theorem analyzeKey_lockstep (lockstep : Lockstep related) : ∀ (key : Key) {s t : Usage × List Fault}, related s t →
    related (analyzeKey key s) (analyzeKey key t)
  | .named _, _, _, h => h
  | .computed e, _, _, h => analyze_lockstep lockstep e h

end

end Expr

namespace Node

mutual

theorem analyze_lockstep (lockstep : Lockstep related) : ∀ (n : Node) {s t : Usage × List Fault}, related s t →
    related (n.analyze s) (n.analyze t)
  | text _ _ _, _, _, h | comment _ _ _, _, _, h | config _ _ _, _, _, h => h
  | interpolation _ e _, _, _, h => e.analyze_lockstep lockstep h
  | group _ body _, _, _, h => analyzeAll_lockstep lockstep body h
  | choice _ test body none _, _, _, h => by
    have tested := test.analyze_lockstep lockstep h
    exact lockstep.branch tested (analyzeAll_lockstep lockstep body tested)
  | choice _ test body (some other) _, _, _, h => by
    have tested := test.analyze_lockstep lockstep h
    have first := lockstep.branch tested (analyzeAll_lockstep lockstep body tested)
    exact lockstep.branch first (analyzeAll_lockstep lockstep other first)
  | loop _ items item index body none _, _, _, h => by
    have listed := items.analyze_lockstep lockstep h
    have begun := lockstep.defineAll (item.name :: (index.map Binding.name).toList) listed
    exact lockstep.branch listed (analyzeAll_lockstep lockstep body begun)
  | loop _ items item index body (some other) _, _, _, h => by
    have listed := items.analyze_lockstep lockstep h
    have begun := lockstep.defineAll (item.name :: (index.map Binding.name).toList) listed
    have first := lockstep.branch listed (analyzeAll_lockstep lockstep body begun)
    exact lockstep.branch first (analyzeAll_lockstep lockstep other first)
  | element _ tag attributes body _, _, _, h => by
    have named := analyzeAttributes_lockstep lockstep attributes h
    have inside := analyzeAll_lockstep lockstep body named
    cases tag with
    | scope => exact named
    | step => exact lockstep.defineAll (stepResults attributes) inside
    | _ => exact inside

theorem analyzeAll_lockstep (lockstep : Lockstep related) : ∀ (nodes : List Node) {s t : Usage × List Fault}, related s t →
    related (analyzeAll nodes s) (analyzeAll nodes t)
  | [], _, _, h => h
  | n :: r, _, _, h => analyzeAll_lockstep lockstep r (analyze_lockstep lockstep n h)

theorem analyzeAttributes_lockstep (lockstep : Lockstep related) : ∀ (attributes : List Attribute) {s t : Usage × List Fault},
    related s t → related (analyzeAttributes attributes s) (analyzeAttributes attributes t)
  | [], _, _, h => h
  | .mk _ _ value :: r, _, _, h => analyzeAttributes_lockstep lockstep r (analyzeValue_lockstep lockstep value h)

theorem analyzeValue_lockstep (lockstep : Lockstep related) : ∀ (value : AttributeValue) {s t : Usage × List Fault},
    related s t → related (analyzeValue value s) (analyzeValue value t)
  | .flag, _, _, h => h
  | .nodes parts, _, _, h => analyzeAll_lockstep lockstep parts h

end

end Node

/-! ## What is found -/

section Found

variable {p : Fault → Prop}

/-- A fault that a read finds is that a name is not declared. -/
theorem Usage.undeclared_of_read {name : String} {span : Span} {u : Usage} {f : Fault}
    (found : f ∈ (u.read name span).2) :
    f = ⟨.variableNotDeclared name, span⟩ ∧ ∃ names, u.allowed = some names ∧ name ∉ names := by
  unfold Usage.read at found
  split at found
  · cases found
  · split at found
    · cases found
    · next names only =>
      split at found
      · cases found
      · next out => exact ⟨List.mem_singleton.mp found, names, only, out⟩

/-- What is true of all reads of names that are not declared is true of all that an analysis finds. -/
theorem lockstep_found (undeclared : ∀ name span, p ⟨.variableNotDeclared name, span⟩) :
    Lockstep fun s _ => ∀ f ∈ s.2, p f where
  read := by
    intro s t h name span f found
    rcases List.mem_append.mp found with before | read
    · exact h f before
    · rw [(Usage.undeclared_of_read read).1]
      exact undeclared name span
  define h _ := h
  branch _ h := h

theorem Expr.found_of_analyze (undeclared : ∀ name span, p ⟨.variableNotDeclared name, span⟩) (e : Expr) (u : Usage) :
    ∀ f ∈ (e.analyze (u, [])).2, p f :=
  e.analyze_lockstep (lockstep_found undeclared) (s := (u, [])) (t := (u, [])) nofun

theorem Node.found_of_closureFaults (undeclared : ∀ name span, p ⟨.variableNotDeclared name, span⟩)
    (names : List String) (body : List Node) : ∀ f ∈ closureFaults names body, p f :=
  analyzeAll_lockstep (lockstep_found undeclared) body (s := (Usage.start (some (Names.ofList names)), []))
    (t := (Usage.start none, [])) nofun

end Found

end PromptScript
