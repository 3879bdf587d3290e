import PromptScript.Proofs.Asides
import PromptScript.Proofs.Renamed
import PromptScript.Proofs.Restored

/-! # Passes with other identities

What holds for evaluations holds for whole passes: on a document whose marks differ in identities alone a pass does
the same, and leaves marks, messages and cells that differ so. -/
namespace PromptScript

variable {σ : Type}

/-! ## What a pass keeps -/

section Instances

instance : Renamable Span := ⟨fun _ => id⟩

instance : Renamable Role := ⟨fun _ => id⟩

instance : Renamable ContentKind := ⟨fun _ => id⟩

instance : Renamable Pointers := ⟨fun _ => id⟩

instance : Renamable Flow := ⟨fun _ => id⟩

variable (f : Nat → Nat)

/-- The item with other identities in its values. -/
def Content.withIdentities : Content → Content
  | text s sources attributes => text s sources (renamed f attributes)
  | image url attributes => image url (renamed f attributes)
  | file url mimeType attributes => file url mimeType (renamed f attributes)
  | toolCall id name arguments attributes => toolCall id name (renamed f arguments) (renamed f attributes)
  | toolResult id name result failed attributes =>
    toolResult id name (renamed f result) failed (renamed f attributes)

instance : Renamable Content := ⟨Content.withIdentities⟩

instance : Renamable Message := ⟨fun f m => ⟨m.role, renamed f m.content, renamed f m.attributes⟩⟩

instance : Renamable Progress := ⟨fun f p => { p with memo := renamed f p.memo, stash := renamed f p.stash }⟩

namespace Node

mutual

/-- The node with other identities in the marks on it and in it. -/
def withIdentities : Node → Node
  | text span data p => text span data (renamed f p)
  | comment span data p => comment span data (renamed f p)
  | config span data p => config span data (renamed f p)
  | interpolation span e p => interpolation span e (renamed f p)
  | choice span test body none p => choice span test (allWithIdentities body) none (renamed f p)
  | choice span test body (some other) p =>
    choice span test (allWithIdentities body) (some (allWithIdentities other)) (renamed f p)
  | loop span items item index body none p =>
    loop span items item index (allWithIdentities body) none (renamed f p)
  | loop span items item index body (some other) p =>
    loop span items item index (allWithIdentities body) (some (allWithIdentities other)) (renamed f p)
  | element span tag attributes body p => element span tag attributes (allWithIdentities body) (renamed f p)
  | group span body p => group span (allWithIdentities body) (renamed f p)

def allWithIdentities : List Node → List Node
  | [] => []
  | n :: r => withIdentities n :: allWithIdentities r

end

instance : Renamable Node := ⟨withIdentities⟩

instance : Renamable Pass.Rounds := ⟨fun f r => ⟨renamed f r.body, r.round, r.table⟩⟩

end Node

end Instances

variable {f : Nat → Nat}

namespace Node

theorem allWithIdentities_eq (nodes : List Node) : allWithIdentities f nodes = renamed f nodes := by
  induction nodes with
  | nil => rfl
  | cons n r ih => exact congrArg (withIdentities f n :: ·) ih

theorem renamed_choice (span : Span) (test : Expr) (body : List Node) (other : Option (List Node))
    (p : Option Progress) :
    renamed f (choice span test body other p) = choice span test (renamed f body) (renamed f other) (renamed f p) := by
  cases other with
  | none => exact congrArg (choice span test · none _) (allWithIdentities_eq body)
  | some other =>
    rw [renamed_some, ← allWithIdentities_eq, ← allWithIdentities_eq]
    rfl

theorem renamed_loop (span : Span) (items : Expr) (item : Binding) (index : Option Binding) (body : List Node)
    (other : Option (List Node)) (p : Option Progress) :
    renamed f (loop span items item index body other p) =
      loop span items item index (renamed f body) (renamed f other) (renamed f p) := by
  cases other with
  | none => exact congrArg (loop span items item index · none _) (allWithIdentities_eq body)
  | some other =>
    rw [renamed_some, ← allWithIdentities_eq, ← allWithIdentities_eq]
    rfl

theorem renamed_element (span : Span) (tag : Tag) (attributes : List Attribute) (body : List Node)
    (p : Option Progress) :
    renamed f (element span tag attributes body p) = element span tag attributes (renamed f body) (renamed f p) :=
  congrArg (element span tag attributes · _) (allWithIdentities_eq body)

theorem renamed_group (span : Span) (body : List Node) (p : Option Progress) :
    renamed f (group span body p) = group span (renamed f body) (renamed f p) :=
  congrArg (group span · _) (allWithIdentities_eq body)

theorem progress_renamed (n : Node) : (renamed f n).progress = renamed f n.progress := by
  cases n with
  | choice => rw [renamed_choice]; rfl
  | loop => rw [renamed_loop]; rfl
  | _ => rfl

theorem isDone_renamed (n : Node) : (renamed f n).isDone = n.isDone := by
  unfold isDone
  rw [progress_renamed]
  cases n.progress <;> rfl

theorem renamed_withProgress (p : Option Progress) (n : Node) :
    renamed f (n.withProgress p) = (renamed f n).withProgress (renamed f p) := by
  cases n with
  | choice => rw [withProgress, renamed_choice, renamed_choice]; rfl
  | loop => rw [withProgress, renamed_loop, renamed_loop]; rfl
  | element => rw [withProgress, renamed_element, renamed_element]; rfl
  | group => rw [withProgress, renamed_group, renamed_group]; rfl
  | _ => rfl

theorem renamed_finished (n : Node) : renamed f n.finished = (renamed f n).finished := by
  unfold finished
  rw [renamed_withProgress, progress_renamed]
  cases n.progress <;> rfl

mutual

/-- A node without marks has no identities. -/
theorem cleared_renamed : ∀ n : Node, (renamed f n).cleared = n.cleared
  | text .. | comment .. | config .. | interpolation .. => rfl
  | choice _ _ body none _ => by
    rw [renamed_choice, renamed_none, cleared, cleared, clearedAll_renamed body]
  | choice _ _ body (some other) _ => by
    rw [renamed_choice, renamed_some, cleared, cleared, clearedAll_renamed body, clearedAll_renamed other]
  | loop _ _ _ _ body none _ => by
    rw [renamed_loop, renamed_none, cleared, cleared, clearedAll_renamed body]
  | loop _ _ _ _ body (some other) _ => by
    rw [renamed_loop, renamed_some, cleared, cleared, clearedAll_renamed body, clearedAll_renamed other]
  | element _ _ _ body _ => by rw [renamed_element, cleared, cleared, clearedAll_renamed body]
  | group _ body _ => by rw [renamed_group, cleared, cleared, clearedAll_renamed body]

theorem clearedAll_renamed : ∀ nodes : List Node, clearedAll (renamed f nodes) = clearedAll nodes
  | [] => rfl
  | n :: r => by rw [renamed_cons, clearedAll, clearedAll, cleared_renamed n, clearedAll_renamed r]

end

mutual

theorem renamed_cleared : ∀ n : Node, renamed f n.cleared = n.cleared
  | text .. | comment .. | config .. | interpolation .. => rfl
  | choice _ _ body none _ => by
    rw [cleared, renamed_choice, renamed_clearedAll body]; rfl
  | choice _ _ body (some other) _ => by
    rw [cleared, renamed_choice, renamed_some, renamed_clearedAll body, renamed_clearedAll other]; rfl
  | loop _ _ _ _ body none _ => by
    rw [cleared, renamed_loop, renamed_clearedAll body]; rfl
  | loop _ _ _ _ body (some other) _ => by
    rw [cleared, renamed_loop, renamed_some, renamed_clearedAll body, renamed_clearedAll other]; rfl
  | element _ _ _ body _ => by rw [cleared, renamed_element, renamed_clearedAll body]; rfl
  | group _ body _ => by rw [cleared, renamed_group, renamed_clearedAll body]; rfl

theorem renamed_clearedAll : ∀ nodes : List Node, renamed f (clearedAll nodes) = clearedAll nodes
  | [] => rfl
  | n :: r => by rw [clearedAll, renamed_cons, renamed_cleared n, renamed_clearedAll r]

end

end Node

namespace Content

theorem isToolCall_renamed (c : Content) : (renamed f c).isToolCall = c.isToolCall := by cases c <;> rfl

theorem kindName_renamed (c : Content) : (renamed f c).kindName = c.kindName := by cases c <;> rfl

end Content

@[simp] theorem Attributes.toJson_renamed (attributes : Attributes) : toJson (renamed f attributes) = toJson attributes := by
  unfold toJson
  refine List.map_map.trans (List.map_congr_left fun e _ => ?_)
  exact congrArg (Prod.mk e.1) (Value.toJson_renamed e.2)

@[simp] theorem Content.attributes_renamed (c : Content) : (renamed f c).attributes = renamed f c.attributes := by
  cases c <;> rfl

@[simp] theorem Content.ownFields_renamed (c : Content) : (renamed f c).ownFields = c.ownFields := by
  cases c with
  | toolCall id name arguments attributes =>
    exact congrArg (fun j => [("toolCallId", Json.str id), ("toolName", .str name), ("toolArguments", j)])
      (Value.toJson_renamed arguments)
  | toolResult id name result failed attributes =>
    exact congrArg (fun j => Json.present [("toolCallId", some (.str id)), ("toolName", some (.str name)),
      ("result", some j), ("isError", failed.map .bool)]) (Value.toJson_renamed result)
  | _ => rfl

@[simp] theorem Content.toJson_renamed (c : Content) : (renamed f c).toJson = c.toJson := by
  unfold toJson entries
  rw [kindName_renamed, ownFields_renamed, attributes_renamed, Attributes.toJson_renamed]

/-! ## The judgement for passes -/

/-- Two passes that differ in identities alone. -/
structure PassState.Moved {bound : Nat} (r : Renaming σ bound) (s t : PassState σ) : Prop where
  machine : Machine.Moved r s.machine t.machine
  messages : t.messages = renamed r.map s.messages
  passage : t.passage = s.passage
  pending : t.pending = renamed r.map s.pending
  response : t.response = s.response
  globalConfig : t.globalConfig = s.globalConfig
  stepConfig : t.stepConfig = s.stepConfig
  underMessages : Under s.machine.fresh s.messages
  underPending : Under s.machine.fresh s.pending

namespace Pass

variable {α β : Type} [Renamable α] [Renamable β] {bound low : Nat} (r : Renaming σ bound)

/-- Two parts of passes that give one value. -/
abbrev Same {γ : Type} (low : Nat) (c d : Pass σ γ) : Prop :=
  MovesSame (fun s => s.machine.fresh) (PassState.Moved r) low c d

/-- Two parts of passes that differ in identities alone. -/
abbrev Alike (low : Nat) (c d : Pass σ α) : Prop :=
  Moves (fun s => s.machine.fresh) (PassState.Moved r) r.map low c d

section Flow

variable {r} {part part' : Pass σ (α × Flow)}

theorem Alike.into {k k' : α → Flow → β} (first : Alike r low part part')
    (same : ∀ a flow, k' (renamed r.map a) flow = renamed r.map (k a flow))
    (under : ∀ more, low ≤ more → ∀ a flow, Under more a → Under more (k a flow)) :
    Alike r low (into k part) (into k' part') :=
  first.bind fun more le a there => .pure (by rw [renamed_mk, ← same]; rfl)
    (under_mk.mpr ⟨under more le a.1 a.2 (under_mk.mp there).1, fun _ _ _ => rfl⟩)

theorem Alike.goingOn {left left' : α → β} {rest rest' : α → Pass σ (β × Flow)} (first : Alike r low part part')
    (same : ∀ a, left' (renamed r.map a) = renamed r.map (left a))
    (under : ∀ more, low ≤ more → ∀ a, Under more a → Under more (left a))
    (last : ∀ more, low ≤ more → ∀ a, Under more a → Alike r more (rest a) (rest' (renamed r.map a))) :
    Alike r low (goingOn part left rest) (goingOn part' left' rest') := by
  refine first.bind fun more le a there => ?_
  obtain ⟨a, flow⟩ := a
  replace there := (under_mk.mp there).1
  cases flow with
  | stops => exact .pure (by rw [same]; rfl) (under_mk.mpr ⟨under more le a there, fun _ _ _ => rfl⟩)
  | goesOn => exact last more le a there

theorem Alike.closing {close close' : Pass σ Unit} (first : Alike r low part part')
    (last : ∀ more, low ≤ more → Alike r more close close') : Alike r low (closing part close) (closing part' close') :=
  first.goingOn (fun _ => rfl) (fun _ _ _ => id) fun more le _ there => (last more le).bind fun _ le' _ _ =>
    .pure rfl (under_mk.mpr ⟨there.mono le', fun _ _ _ => rfl⟩)

/-- The table in view differs in nothing. -/
theorem Alike.inView {table : Option Pointers} (first : Alike r low part part') :
    Alike r low (inView table part) (inView table part') := by
  intro s t ⟨le, moved⟩
  have tables : ∀ {s t : PassState σ}, s.Moved r t → t.table = s.table :=
    fun moved => (congrArg Scope.pointers moved.machine.scope).trans (Scope.renamed_pointers _)
  have within : ∀ (s t : PassState σ), s.Moved r t → ∀ table,
      (s.withTable table).Moved r (t.withTable table) := by
    intro s t moved table
    refine { moved with machine := { moved.machine with scope := ?_, under := ?_ } }
    · show Scope.mk t.machine.scope.stash table = _
      rw [moved.machine.scope]
      rfl
    · exact moved.machine.under.of_natural (k := fun scope => Scope.mk scope.stash table) fun _ _ => rfl
  have here := first (s.withTable (table.getD s.table)) (t.withTable (table.getD s.table)) ⟨le, within s t moved _⟩
  show Meet _ _ ((Pass.inView table part).result s) ((Pass.inView table part').result t)
  rw [result_inView, result_inView, tables moved]
  unfold result
  generalize part.run.run (s.withTable (table.getD s.table)) = x at here ⊢
  generalize part'.run.run (t.withTable (table.getD s.table)) = y at here ⊢
  cases here with
  | ok h =>
    obtain ⟨⟨le, moved⟩, rfl, under⟩ := h
    refine .ok ⟨⟨le, within _ _ moved _⟩, ?_, ?_⟩
    · rw [renamed_mk, renamed_mk, tables moved]
      rfl
    · obtain ⟨there, -⟩ := under_mk.mp under
      exact under_mk.mpr ⟨under_mk.mpr ⟨there, fun _ _ _ => rfl⟩, fun _ _ _ => rfl⟩
  | error h => exact .error h

theorem Alike.inScope {scope : Scope} (underScope : Under low scope)
    (first : ∀ more, low ≤ more → Alike r more part part') :
    Alike r low (inScope scope part) (inScope (renamed r.map scope) part') := by
  intro s t ⟨le, moved⟩
  have within : ∀ (s t : PassState σ), s.Moved r t → ∀ scope, Under s.machine.fresh scope →
      (s.withScope scope).Moved r (t.withScope (renamed r.map scope)) :=
    fun s t moved scope under => { moved with machine := { moved.machine with scope := rfl, under } }
  have here := first s.machine.fresh le (s.withScope scope) (t.withScope (renamed r.map scope))
    ⟨Nat.le_refl _, within s t moved scope (underScope.mono le)⟩
  show Meet _ _ ((Pass.inScope scope part).result s) ((Pass.inScope (renamed r.map scope) part').result t)
  rw [result_inScope, result_inScope, moved.machine.scope]
  unfold result
  generalize part.run.run (s.withScope scope) = x at here ⊢
  generalize part'.run.run (t.withScope (renamed r.map scope)) = y at here ⊢
  cases here with
  | ok h =>
    obtain ⟨⟨grown, moved'⟩, rfl, under⟩ := h
    refine .ok ⟨⟨Nat.le_trans le grown, within _ _ moved' _ (moved.machine.under.mono grown)⟩, ?_, ?_⟩
    · rw [renamed_mk, renamed_mk, moved'.machine.scope]
    · obtain ⟨there, -⟩ := under_mk.mp under
      exact under_mk.mpr ⟨under_mk.mpr ⟨there, moved'.machine.under⟩, fun _ _ _ => rfl⟩
  | error h => exact .error ⟨Nat.le_trans le h.1, h.2⟩

end Flow

/-! ## Parts of passes -/

section Parts

variable {γ : Type}

theorem alike_fail (defect : Defect) (span : Span) : Alike r low (fail defect span : Pass σ α) (fail defect span) :=
  .throw _

theorem alike_need {v : Option α} (under : Under low v) (defect : Defect) (span : Span) :
    Alike r low (need v defect span : Pass σ α) (need (renamed r.map v) defect span) := by
  cases v with
  | none => exact .throw _
  | some a => exact .pure rfl (under_some.mp under)

theorem alike_write {v : Value} (under : Under low v) (name : String) :
    Alike r low (write name v : Pass σ Unit) (write name (renamed r.map v)) := by
  refine fun s t ⟨le, moved⟩ => .ok ⟨⟨le, { moved with machine := { moved.machine with scope := ?_, under := ?_ } }⟩,
    rfl, under_unit _⟩
  · show t.machine.scope.set name _ = _
    rw [moved.machine.scope, Scope.renamed_set]
  · exact Scope.under_set moved.machine.under (under.mono le) name

theorem alike_declare {v : Value} (under : Under low v) (name : String) :
    Alike r low (declare name v : Pass σ Unit) (declare name (renamed r.map v)) := by
  refine fun s t ⟨le, moved⟩ => .ok ⟨⟨le, { moved with machine := { moved.machine with scope := ?_, under := ?_ } }⟩,
    rfl, under_unit _⟩
  · show t.machine.scope.declare name _ = _
    rw [moved.machine.scope, Scope.renamed_declare]
  · exact Scope.under_declare moved.machine.under (under.mono le) name

theorem alike_addSegment (segment : Segment) :
    Alike r low (addSegment segment : Pass σ Unit) (addSegment segment) :=
  fun _ _ ⟨le, moved⟩ => .ok
    ⟨⟨le, { moved with passage := congrArg (· ++ [segment]) moved.passage }⟩, rfl, under_unit _⟩

theorem alike_addContent {c : Content} (under : Under low c) (span : Span) :
    Alike r low (addContent c span : Pass σ Unit) (addContent (renamed r.map c) span) := by
  refine fun s t ⟨le, moved⟩ => .ok ⟨⟨le, { moved with pending := ?_, underPending := ?_ }⟩, rfl, under_unit _⟩
  · show t.pending ++ [(_, span)] = _
    rw [moved.pending, renamed_append]
    rfl
  · exact under_append.mpr ⟨moved.underPending,
      under_cons.mpr ⟨under_mk.mpr ⟨under.mono le, fun _ _ _ => rfl⟩, under_nil⟩⟩

theorem alike_addMessage {m : Message} (under : Under low m) :
    Alike r low (addMessage m : Pass σ Unit) (addMessage (renamed r.map m)) := by
  have pushed : ∀ (g : Nat → Nat) (ms : Array Message), renamed g (ms.push m) = (renamed g ms).push (renamed g m) :=
    fun _ _ => Array.map_push
  refine fun s t ⟨le, moved⟩ => .ok ⟨⟨le, { moved with messages := ?_, underMessages := ?_ }⟩, rfl, under_unit _⟩
  · show t.messages.push _ = _
    rw [moved.messages, pushed]
  · intro g one fixed
    rw [pushed, moved.underMessages g one fixed, (under.mono le) g one fixed]

theorem same_takeParagraph : Same r low (takeParagraph : Pass σ (Option Paragraph)) takeParagraph :=
  fun _ _ ⟨le, moved⟩ => .ok ⟨⟨le, { moved with passage := rfl }⟩, congrArg Passage.paragraph? moved.passage.symm⟩

theorem same_takeResponse : Same r low (takeResponse : Pass σ (Option (List Content))) takeResponse :=
  fun _ _ ⟨le, moved⟩ => .ok ⟨⟨le, { moved with response := rfl }⟩, moved.response.symm⟩

theorem same_fail (defect : Defect) (span : Span) : Same r low (fail defect span : Pass σ γ) (fail defect span) :=
  .throw _

theorem same_need (v : Option γ) (defect : Defect) (span : Span) :
    Same r low (need v defect span : Pass σ γ) (need v defect span) := by
  cases v with
  | none => exact .throw _
  | some a => exact .pure a

theorem alike_flushPassage (options : Options) :
    Alike r low (flushPassage options : Pass σ Unit) (flushPassage options) := by
  refine (same_takeParagraph r).followed fun p => ?_
  cases p with
  | none => exact .pure rfl (under_unit _)
  | some p => exact alike_addContent (c := textOf options p []) r (fun _ _ _ => rfl) nowhere

theorem alike_takeContent (options : Options) :
    Alike r low (takeContent options : Pass σ (List (Content × Span))) (takeContent options) :=
  (alike_flushPassage r options).bind fun _ _ _ _ _ _ ⟨le, moved⟩ => .ok
    ⟨⟨le, { moved with pending := rfl, underPending := under_nil }⟩, moved.pending, moved.underPending⟩

theorem alike_messageOf (role : Role) {content : List (Content × Span)} (under : Under low content) (span : Span) :
    Alike r low (messageOf role content span : Pass σ Message) (messageOf role (renamed r.map content) span) := by
  have message : ∀ (g : Nat → Nat) (content : List (Content × Span)),
      renamed g (Message.mk role (content.map Prod.fst) []) = ⟨role, (renamed g content).map Prod.fst, []⟩ := by
    intro g content
    refine congrArg (Message.mk role · []) ?_
    exact (List.map_map (g := renamed g) (f := Prod.fst)).trans (List.map_map (g := Prod.fst) (f := renamed g)).symm
  have found : (renamed r.map content).find? (·.1.isToolCall) = renamed r.map (content.find? (·.1.isToolCall)) :=
    List.find?_map.trans (congrArg (fun p => renamed r.map (content.find? p))
      (funext fun e => Content.isToolCall_renamed e.1))
  have given : Alike r low (return ⟨role, content.map Prod.fst, []⟩ : Pass σ Message)
      (return ⟨role, (renamed r.map content).map Prod.fst, []⟩) :=
    .pure (message r.map content).symm 
      (under.of_natural (k := fun c => Message.mk role (c.map Prod.fst) []) fun g _ => message g content)
  unfold messageOf
  rw [found]
  cases content.find? (·.1.isToolCall) with
  | none => exact given
  | some e =>
    obtain ⟨c, at_⟩ := e
    rw [renamed_some, renamed_mk]
    dsimp only
    split
    · exact given
    · exact alike_fail r _ _

theorem alike_flushContent (options : Options) :
    Alike r low (flushContent options : Pass σ Unit) (flushContent options) := by
  refine (alike_takeContent r options).bind fun more le content under => ?_
  cases content with
  | nil => exact .pure rfl (under_unit _)
  | cons e content =>
    exact (alike_messageOf r options.defaultRole under nowhere).bind fun _ _ _ there => alike_addMessage r there

theorem alike_putValue (options : Options) (around : Surroundings) (span : Span) (name : Option String) (v : Value) :
    Alike r low (putValue options around span name v : Pass σ Unit)
      (putValue options around span name (renamed r.map v)) := by
  have adds : ∀ (files : List Attachment) (low : Nat),
      Alike r low (files.forM fun file => addContent file.toContent span : Pass σ PUnit)
        (files.forM fun file => addContent file.toContent span) := by
    intro files
    induction files with
    | nil => exact fun low => .pure rfl (under_unit _)
    | cons file files ih =>
      intro low
      have same : ∀ g : Nat → Nat, renamed g file.toContent = file.toContent := by
        intro g
        unfold Attachment.toContent
        split <;> rfl
      have here : Alike r low (addContent file.toContent span : Pass σ Unit) _ :=
        alike_addContent r (fun g _ _ => same g) span
      rw [same] at here
      exact here.bind fun more _ _ _ => ih more
  unfold putValue
  rw [Attachment.listOf?_renamed, Value.toRendered_renamed]
  cases Attachment.listOf? v with
  | none => exact alike_addSegment r _
  | some files =>
    dsimp only
    split
    · split
      · exact alike_addSegment r _
      · exact alike_fail r _ _
    · exact (alike_flushPassage r options).bind fun more _ _ _ => adds files more

theorem same_staticAttribute (name : String) (attributes : List Attribute) :
    Same r low (staticAttribute name attributes : Pass σ (Option String)) (staticAttribute name attributes) := by
  unfold staticAttribute
  split
  · exact .pure _
  · exact (same_need r _ _ _).bind fun _ => .pure _

/-! ### Messages -/

section Messages

variable {attributes : Attributes} (under : Under low attributes)

/-- What an attribute says is found in the same place. -/
theorem under_get? (h : Under low attributes) (name : String) : Under low (Fields.get? name attributes) :=
  h.of_natural fun _ _ => (Fields.get?_renamed name _).symm

theorem under_erase (h : Under low attributes) (name : String) : Under low (Fields.erase name attributes) :=
  h.of_natural fun _ _ => Fields.renamed_erase name _

include under

theorem alike_roleOf (span : Span) (role : Option Role) :
    Alike r low (roleOf span role attributes : Pass σ (Role × Attributes))
      (roleOf span role (renamed r.map attributes)) := by
  unfold roleOf
  cases role with
  | some role => exact .pure rfl (under_mk.mpr ⟨fun _ _ _ => rfl, under⟩)
  | none =>
    dsimp only
    rw [Fields.get?_renamed]
    refine (alike_need r (under_get? under "role") _ span).bind fun more le v _ => ?_
    rw [Value.toText_renamed]
    refine (same_need r _ _ _).followed fun role => .pure ?_ (under_mk.mpr ⟨fun _ _ _ => rfl, ?_⟩)
    · rw [renamed_mk, Fields.renamed_erase]
      rfl
    · exact (under_erase under "role").mono le

theorem alike_openMessage (options : Options) (around : Surroundings) (span : Span) (role : Option Role) :
    Alike r low (openMessage options around span role attributes : Pass σ (Role × Attributes))
      (openMessage options around span role (renamed r.map attributes)) := by
  have opens : Alike r low (do flushContent options; roleOf span role attributes : Pass σ (Role × Attributes))
      (do flushContent options; roleOf span role (renamed r.map attributes)) :=
    (alike_flushContent r options).bind fun _ le _ _ => alike_roleOf r (under.mono le) span role
  unfold openMessage
  split
  · exact (same_fail r _ _).followed fun _ => opens
  · exact opens

theorem alike_toolAnswer (span : Span) {m : Message} :
    Alike r low (toolAnswer span m attributes : Pass σ Message)
      (toolAnswer span (renamed r.map m) (renamed r.map attributes)) := by
  have contents : (renamed r.map m).content.map Content.toJson = m.content.map Content.toJson :=
    List.map_map.trans (List.map_congr_left fun c _ => Content.toJson_renamed c)
  have message : ∀ (g : Nat → Nat) id name, renamed g (Message.mk m.role [.toolResult id name
        (Value.ofJson (.arr (m.content.map Content.toJson))) none []]
        (Fields.erase "name" (Fields.erase "id" attributes))) =
      ⟨m.role, [.toolResult id name (Value.ofJson (.arr (m.content.map Content.toJson))) none []],
        Fields.erase "name" (Fields.erase "id" (renamed g attributes))⟩ := by
    intro g id name
    rw [← Fields.renamed_erase, ← Fields.renamed_erase]
    have result := Value.renamed_ofJson (f := g) (.arr (m.content.map Content.toJson))
    exact congrArg (fun v => Message.mk m.role [.toolResult id name v none []] _) result
  unfold toolAnswer
  rw [Fields.get?_renamed, Fields.get?_renamed, contents]
  refine (alike_need r (under_get? under "id") _ span).bind fun more le id _ => ?_
  refine (alike_need r ((under_get? under "name").mono le) _ span).bind fun last le' name _ => ?_
  rw [Value.toText_renamed, Value.toText_renamed]
  refine .pure (message r.map _ _).symm fun g one fixed => ?_
  rw [message g, (under.mono le).mono le' g one fixed]

theorem alike_closeMessage (options : Options) (span : Span) (role : Role) :
    Alike r low (closeMessage options span role attributes : Pass σ Unit)
      (closeMessage options span role (renamed r.map attributes)) := by
  refine (alike_takeContent r options).bind fun more le content there => ?_
  refine (alike_messageOf r role there span).bind fun last le' m underMessage => ?_
  have underHere : Under last attributes := (under.mono le).mono le'
  split
  · exact (alike_toolAnswer r underHere span).bind fun _ _ _ made => alike_addMessage r made
  · refine alike_addMessage (m := { m with attributes }) r fun g one fixed => ?_
    have whole := underMessage g one fixed
    obtain ⟨-, content, -⟩ := Message.mk.inj whole
    show Message.mk m.role (renamed g m.content) (renamed g attributes) = _
    rw [content, underHere g one fixed]

theorem alike_message {part part' : Pass σ (α × Flow)} (options : Options) (around : Surroundings) (span : Span)
    (role : Option Role) (body : ∀ more, low ≤ more → Alike r more part part') :
    Alike r low (message options around span role attributes part)
      (message options around span role (renamed r.map attributes) part') := by
  refine (alike_openMessage r under options around span role).bind fun more le opened there => ?_
  obtain ⟨role, left⟩ := opened
  exact (body more le).closing fun last le' => alike_closeMessage r ((under_mk.mp there).2.mono le') options span role

/-! ### Content -/

theorem alike_kindOf (span : Span) (kind : Option ContentKind) :
    Alike r low (kindOf span kind attributes : Pass σ (ContentKind × Attributes))
      (kindOf span kind (renamed r.map attributes)) := by
  unfold kindOf
  cases kind with
  | some kind => exact .pure rfl (under_mk.mpr ⟨fun _ _ _ => rfl, under⟩)
  | none =>
    dsimp only
    rw [Fields.get?_renamed]
    refine (alike_need r (under_get? under "type") _ span).bind fun more le v _ => ?_
    rw [Value.toText_renamed]
    refine (same_need r _ _ _).followed fun kind => .pure ?_ (under_mk.mpr ⟨fun _ _ _ => rfl, ?_⟩)
    · rw [renamed_mk, Fields.renamed_erase]
      rfl
    · exact (under_erase under "type").mono le

theorem alike_openContent (around : Surroundings) (span : Span) (kind : Option ContentKind) :
    Alike r low (openContent around span kind attributes : Pass σ (ContentKind × Attributes))
      (openContent around span kind (renamed r.map attributes)) := by
  unfold openContent
  split
  · exact (same_fail r _ _).followed fun _ => alike_kindOf r under span kind
  · exact alike_kindOf r under span kind

theorem alike_argumentsOf (span : Span) :
    Alike r low (argumentsOf span attributes : Pass σ Value) (argumentsOf span (renamed r.map attributes)) := by
  have there := under_get? under "arguments"
  unfold argumentsOf
  rw [Fields.get?_renamed]
  generalize Fields.get? "arguments" attributes = given at there ⊢
  cases given with
  | none => exact .pure rfl fun _ _ _ => rfl
  | some v =>
    have there := under_some.mp there
    cases v with
    | string s =>
      exact (same_need r _ _ span).followed fun j => .pure (Value.renamed_ofJson j).symm fun _ _ _ =>
        Value.renamed_ofJson j
    | array items =>
      rw [renamed_some]
      exact .pure rfl there
    | object fields =>
      rw [renamed_some]
      exact .pure rfl there
    | _ => exact .pure rfl there

theorem alike_truthy? (name : String) (defect : Defect) (span : Span) :
    Alike r low (need (truthy? name attributes) defect span : Pass σ Value)
      (need (truthy? name (renamed r.map attributes)) defect span) := by
  have natural : ∀ g : Nat → Nat, renamed g (truthy? name attributes) = truthy? name (renamed g attributes) := by
    intro g
    unfold truthy?
    rw [Fields.get?_renamed]
    cases Fields.get? name attributes with
    | none => rfl
    | some v => simp only [Option.filter, renamed_some, Value.isTruthy_renamed]; split <;> rfl
  rw [← natural]
  exact alike_need r (under.of_natural (k := truthy? name) fun g _ => natural g) defect span

theorem alike_itemOf (options : Options) (span : Span) (kind : ContentKind) (text : Option Paragraph) :
    Alike r low (itemOf options span kind text attributes : Pass σ (Option Content))
      (itemOf options span kind text (renamed r.map attributes)) := by
  cases kind with
  | text =>
    cases text with
    | none => exact .pure rfl under_none
    | some p =>
      refine .pure rfl (under_some.mpr fun g one fixed => ?_)
      exact congrArg (Content.text _ _) (under g one fixed)
  | image =>
    refine (same_need r text _ span).followed fun p => .pure rfl (under_some.mpr fun g one fixed => ?_)
    exact congrArg (Content.image _) (under g one fixed)
  | file =>
    refine (same_need r text _ span).followed fun p => ?_
    refine (alike_truthy? r under "mime" _ span).bind fun more le mimeType _ => ?_
    rw [Value.toText_renamed]
    refine .pure ?_ (under_some.mpr fun g one fixed => ?_)
    · rw [← Fields.renamed_erase]
      rfl
    · exact congrArg (Content.file _ _) ((under_erase under "mime").mono le g one fixed)
  | toolCall =>
    refine (alike_truthy? r under "id" _ span).bind fun more le id _ => ?_
    refine (alike_truthy? r (under.mono le) "name" _ span).bind fun middle le' name _ => ?_
    have underHere : Under middle attributes := (under.mono le).mono le'
    refine (alike_argumentsOf r underHere span).bind fun last le'' arguments there => ?_
    have rest := under_erase (under_erase (under_erase (underHere.mono le'') "id") "name") "arguments"
    rw [Value.toText_renamed, Value.toText_renamed]
    refine .pure ?_ (under_some.mpr fun g one fixed => ?_)
    · rw [← Fields.renamed_erase, ← Fields.renamed_erase, ← Fields.renamed_erase]
      rfl
    · show Content.toolCall _ _ (renamed g arguments) (renamed g _) = _
      rw [there g one fixed, rest g one fixed]

theorem alike_closeContent (options : Options) (span : Span) (kind : ContentKind) :
    Alike r low (closeContent options span kind attributes : Pass σ Unit)
      (closeContent options span kind (renamed r.map attributes)) := by
  refine (same_takeParagraph r).followed fun text => ?_
  refine (alike_itemOf r under options span kind text).bind fun more le item there => ?_
  cases item with
  | none => exact .pure rfl (under_unit _)
  | some item => exact alike_addContent r (under_some.mp there) span

theorem alike_content {part part' : Pass σ (α × Flow)} (options : Options) (around : Surroundings) (span : Span)
    (kind : Option ContentKind) (body : ∀ more, low ≤ more → Alike r more part part') :
    Alike r low (content options around span kind attributes part)
      (content options around span kind (renamed r.map attributes) part') := by
  refine (alike_openContent r under around span kind).bind fun more le opened there => ?_
  obtain ⟨kind, left⟩ := opened
  exact (body more le).closing fun last le' => alike_closeContent r ((under_mk.mp there).2.mono le') options span kind

/-! ### Steps -/

omit under in
theorem same_openStep (around : Surroundings) (span : Span) (tags : List Attribute) (attributes : Attributes) :
    Same r low (openStep around span tags attributes : Pass σ StepHead)
      (openStep around span tags (renamed r.map attributes)) := by
  have opens : Same r low (do
      let resultName ← staticAttribute "as" tags
      let rawName ← staticAttribute "raw" tags
      return ⟨resultName, rawName, Attributes.toJson (Fields.erase "raw" (Fields.erase "as" attributes))⟩ :
        Pass σ StepHead) (do
      let resultName ← staticAttribute "as" tags
      let rawName ← staticAttribute "raw" tags
      return ⟨resultName, rawName,
        Attributes.toJson (Fields.erase "raw" (Fields.erase "as" (renamed r.map attributes)))⟩) := by
    rw [← Fields.renamed_erase, ← Fields.renamed_erase, Attributes.toJson_renamed]
    exact (same_staticAttribute r _ _).bind fun _ => (same_staticAttribute r _ _).bind fun _ => .pure _
  unfold openStep
  split
  · exact (same_fail r _ _).bind fun _ => opens
  · exact opens

omit under in
theorem alike_responseValue (span : Span) (hasSchema : Bool) (response : List Content) :
    Alike r low (responseValue span hasSchema response : Pass σ Value) (responseValue span hasSchema response) := by
  unfold responseValue
  dsimp only
  split
  · exact (same_need r _ _ span).followed fun j => .pure (Value.renamed_ofJson j).symm fun _ _ _ =>
      Value.renamed_ofJson j
  · exact .pure rfl fun _ _ _ => rfl

omit under in
theorem alike_closeStep (span : Span) (head : StepHead) (response : List Content) :
    Alike r low (closeStep span head response : Pass σ Unit) (closeStep span head response) := by
  have named (low : Nat) (name : String) : Alike r low (do
      write name (← responseValue span (Fields.has "schema" head.config) response) : Pass σ Unit) (do
      write name (← responseValue span (Fields.has "schema" head.config) response)) :=
    (alike_responseValue r span _ response).bind fun _ _ _ there => alike_write r there name
  have whole (name : String) : Alike r low (write name (Value.ofJson (Message.toJson ⟨.assistant, response, []⟩)) :
      Pass σ Unit) (write name (Value.ofJson (Message.toJson ⟨.assistant, response, []⟩))) := by
    have here : Alike r low (write name (Value.ofJson (Message.toJson ⟨.assistant, response, []⟩)) : Pass σ Unit) _ :=
      alike_write r (fun _ _ _ => Value.renamed_ofJson _) name
    rwa [Value.renamed_ofJson] at here
  obtain ⟨_ | name, _ | rawName, config⟩ := head
  · exact .pure rfl (under_unit _)
  · exact (whole rawName).bind fun _ _ _ _ => .pure rfl (under_unit _)
  · exact named low name
  · exact (whole rawName).bind fun more _ _ _ => named more name

omit under in
theorem alike_step {part part' : Pass σ (α × Flow)} (options : Options) (around : Surroundings) (span : Span)
    (tags : List Attribute) (attributes : Attributes) (body : Alike r low part part') :
    Alike r low (step options around span tags attributes part)
      (step options around span tags (renamed r.map attributes) part') := by
  refine (same_openStep r around span tags attributes).followed fun head => ?_
  refine (same_takeResponse r).followed fun response => ?_
  cases response with
  | none =>
    refine body.bind fun more le a there => ?_
    refine MovesSame.followed (c := leaveSettings head) (d := leaveSettings head) ?_ fun _ => ?_
    · exact fun _ _ ⟨le, moved⟩ => .ok ⟨⟨le, { moved with stepConfig := rfl }⟩, rfl⟩
    · exact .pure rfl (under_mk.mpr ⟨under_some.mpr (under_mk.mp there).1, fun _ _ _ => rfl⟩)
  | some response =>
    exact (alike_closeStep r span head response).bind fun _ _ _ _ => (alike_flushContent r options).bind fun _ _ _ _ =>
      .pure rfl (under_mk.mpr ⟨under_none, fun _ _ _ => rfl⟩)

end Messages

end Parts

/-! ## Attributes -/

section Attributes

variable {host : Host σ} (stateless : host.Stateless bound)
include stateless

theorem alike_evaluate (e : Expr) (bare : ∀ v ∈ e.literals, Expr.Bare v) :
    Alike r low (evaluate (Expr.eval host) e) (evaluate (Expr.eval host) e) := by
  intro s t ⟨le, moved⟩
  have both := (Expr.alike_link r stateless e bare s.machine.fresh).map (k := Expr.settled)
    (fun g _ v => Expr.renamed_settled v) r.one s.machine t.machine ⟨Nat.le_refl _, moved.machine⟩
  show Meet _ _ ((evaluate (Expr.eval host) e).result s) ((evaluate (Expr.eval host) e).result t)
  rw [result_evaluate, result_evaluate]
  change Meet _ _ ((Expr.eval host e).run.run s.machine) ((Expr.eval host e).run.run t.machine) at both
  generalize (Expr.eval host e).run.run s.machine = x at both
  generalize (Expr.eval host e).run.run t.machine = y at both
  cases both with
  | ok h =>
    obtain ⟨⟨grown, machine⟩, same, under⟩ := h
    exact .ok ⟨⟨Nat.le_trans le grown, { moved with
      machine, underMessages := moved.underMessages.mono grown, underPending := moved.underPending.mono grown }⟩,
      same, under⟩
  | error h =>
    obtain ⟨grown, machine⟩ := h
    exact .error ⟨Nat.le_trans le grown, { moved with
      machine, underMessages := moved.underMessages.mono grown, underPending := moved.underPending.mono grown }⟩

theorem alike_interpolate (options : Options) (around : Surroundings) (span : Span) (e : Expr)
    (bare : ∀ v ∈ e.literals, Expr.Bare v) :
    Alike r low (interpolate (Expr.eval host) options around span e)
      (interpolate (Expr.eval host) options around span e) := by
  refine (alike_evaluate r stateless e bare).bind fun more le v _ => ?_
  split
  · exact .pure rfl (under_unit _)
  · cases v with
    | undefined => exact .pure rfl (under_unit _)
    | array items =>
      have here : Alike r more (putValue options around span e.name? (.array items) : Pass σ Unit) _ :=
        alike_putValue r options around span e.name? (.array items)
      rw [Value.renamed_array] at here ⊢
      exact here
    | object fields =>
      have here : Alike r more (putValue options around span e.name? (.object fields) : Pass σ Unit) _ :=
        alike_putValue r options around span e.name? (.object fields)
      rw [Value.renamed_object] at here ⊢
      exact here
    | _ => exact alike_putValue r options around span e.name? _

theorem alike_attributeParts (parts : List Node) (bare : ∀ v ∈ Node.literalsOfAll parts, Expr.Bare v) :
    Alike r low (attributeParts (Expr.eval host) parts) (attributeParts (Expr.eval host) parts) := by
  induction parts generalizing low with
  | nil => exact .pure rfl under_nil
  | cons n parts ih =>
    obtain ⟨here, later⟩ := List.forall_mem_append.mp bare
    cases n with
    | text _ data _ =>
      refine (ih later).bind fun more le vs there => ?_
      split
      · exact .pure rfl there
      · exact .pure rfl (under_cons.mpr ⟨fun _ _ _ => rfl, there⟩)
    | interpolation _ e _ =>
      refine (alike_evaluate r stateless e here).bind fun more le v there => ?_
      have rest : Alike r more _ _ := ih later
      have adds := rest.bind (k := fun vs => pure (v :: vs))
        (l := fun vs => pure (renamed r.map v :: vs)) fun last le' vs found =>
          .pure rfl (under_cons.mpr ⟨there.mono le', found⟩)
      cases v with
      | undefined => exact ih later
      | array items => rw [Value.renamed_array] at adds ⊢; exact adds
      | object fields => rw [Value.renamed_object] at adds ⊢; exact adds
      | _ => exact adds
    | comment _ _ _ | config _ _ _ | choice _ _ _ _ _ | loop _ _ _ _ _ _ _ | element _ _ _ _ _ | group _ _ _ =>
      exact ih later

theorem alike_attributeValues (attributes : List Attribute)
    (bare : ∀ v ∈ Node.literalsOfAttributes attributes, Expr.Bare v) {acc : Attributes} (under : Under low acc) :
    Alike r low (attributeValues (Expr.eval host) attributes acc)
      (attributeValues (Expr.eval host) attributes (renamed r.map acc)) := by
  have sets : ∀ {low : Nat} {acc : Attributes} {v : Value} (name : String), Under low acc → Under low v →
      Under low (Fields.set name v acc) :=
    fun name hacc hv g one fixed => by rw [Fields.renamed_set, hacc g one fixed, hv g one fixed]
  induction attributes generalizing low acc with
  | nil => exact .pure rfl under
  | cons a attributes ih =>
    obtain ⟨_, name, _ | parts⟩ := a
    · have here := ih bare (sets (v := .bool true) name under fun _ _ _ => rfl)
      rw [Fields.renamed_set] at here
      exact here
    · obtain ⟨inside, later⟩ := List.forall_mem_append.mp bare
      refine (alike_attributeParts r stateless parts inside).bind fun more le vs there => ?_
      have underHere := under.mono le
      match vs with
      | [] => exact ih later underHere
      | [v] =>
        have here := ih later (sets name underHere (under_cons.mp there).1)
        rw [Fields.renamed_set] at here
        exact here
      | v :: w :: vs =>
        have here := ih later (sets (v := .string (String.join ((v :: w :: vs).map Value.toText))) name underHere
          fun _ _ _ => rfl)
        have texts : (renamed r.map (v :: w :: vs)).map Value.toText = (v :: w :: vs).map Value.toText :=
          List.map_map.trans (List.map_congr_left fun v _ => Value.toText_renamed v)
        rw [Fields.renamed_set] at here
        rw [renamed_cons, renamed_cons] at texts ⊢
        dsimp only
        rw [texts]
        exact here

end Attributes

end Pass
end PromptScript
