import PromptScript.Proofs.Fixpoint
import PromptScript.Proofs.Readback

/-! # Repeated names in stored chains

Where the text of a stored chain is read again, objects that repeat a name come together. Only values and messages can
repeat one, so that what is read is a stored chain, too: that of the chain whose values repeat no name. -/
namespace PromptScript

namespace Json

theorem mergedItems_eq_map (items : List Json) : mergedItems items = items.map merged := by
  induction items with
  | nil => rfl
  | cons j r ih => rw [mergedItems, ih, List.map_cons]

theorem mergedFields_eq_map (fields : List (String × Json)) : mergedFields fields = fields.map fun e => (e.1, e.2.merged) := by
  induction fields with
  | nil => rfl
  | cons e r ih => rw [mergedFields, ih, List.map_cons]

/-- Fields that repeat no name stay apart. -/
theorem merged_obj {fields : List (String × Json)} (distinct : (Fields.names fields).Nodup) :
    (obj fields).merged = obj (mergedFields fields) := by
  rw [merged, Fields.ofList_of_nodup]
  rw [mergedFields_eq_map, Fields.names, List.map_map]
  exact distinct

theorem mergedFields_present (entries : List (String × Option Json)) :
    mergedFields (present entries) = present (entries.map fun e => (e.1, e.2.map merged)) := by
  induction entries with
  | nil => rfl
  | cons e r ih =>
    obtain ⟨k, _ | j⟩ := e
    · exact ih
    · exact congrArg ((k, j.merged) :: ·) ih

theorem nodup_names_present {entries : List (String × Option Json)} (distinct : (entries.map Prod.fst).Nodup) :
    (Fields.names (present entries)).Nodup := by
  refine distinct.sublist ?_
  clear distinct
  induction entries with
  | nil => exact .slnil
  | cons e r ih =>
    obtain ⟨k, _ | j⟩ := e
    · exact ih.cons _
    · exact ih.cons_cons _

theorem merged_present {entries : List (String × Option Json)} (distinct : (entries.map Prod.fst).Nodup) :
    (obj (present entries)).merged = obj (present (entries.map fun e => (e.1, e.2.map merged))) := by
  rw [merged_obj (nodup_names_present distinct), mergedFields_present]

theorem merged_ofFloat (x : Float) : (ofFloat x).merged = ofFloat x := by
  unfold ofFloat
  split
  · dsimp only
    split <;> rfl
  · rfl

end Json

/-! ## Values -/

namespace Value

mutual

/-- The value in which objects that repeat a name have it once. -/
def merged : Value → Value
  | array items => array (mergedItems items)
  | object fields => object (Fields.ofList (mergedFields fields))
  | v => v

def mergedItems : List Value → List Value
  | [] => []
  | v :: r => merged v :: mergedItems r

def mergedFields : List (String × Value) → List (String × Value)
  | [] => []
  | (k, v) :: r => (k, merged v) :: mergedFields r

end

theorem fieldsToJson_eq_map (fields : List (String × Value)) : fieldsToJson fields = fields.map fun e => (e.1, e.2.toJson) := by
  induction fields with
  | nil => rfl
  | cons e r ih => rw [fieldsToJson, ih, List.map_cons]

theorem fieldsToStored_eq_map (fields : List (String × Value)) :
    fieldsToStored fields = fields.map fun e => (e.1, e.2.toStored) := by
  induction fields with
  | nil => rfl
  | cons e r ih => rw [fieldsToStored, ih, List.map_cons]

mutual

theorem toJson_merged : ∀ v : Value, v.merged.toJson = v.toJson.merged
  | undefined | null | bool _ | string _ | date _ | callable _ | method _ _ _ => rfl
  | number x => (Json.merged_ofFloat x).symm
  | array items => congrArg Json.arr (itemsToJson_merged items)
  | object fields => by
    refine congrArg Json.obj ?_
    rw [fieldsToJson_eq_map, ← Fields.ofList_map, ← fieldsToJson_eq_map, fieldsToJson_merged fields]

theorem itemsToJson_merged : ∀ vs : List Value, itemsToJson (mergedItems vs) = Json.mergedItems (itemsToJson vs)
  | [] => rfl
  | v :: r => by rw [mergedItems, itemsToJson, itemsToJson, Json.mergedItems, toJson_merged v, itemsToJson_merged r]

theorem fieldsToJson_merged : ∀ fields : List (String × Value),
    fieldsToJson (mergedFields fields) = Json.mergedFields (fieldsToJson fields)
  | [] => rfl
  | (k, v) :: r => by
    rw [mergedFields, fieldsToJson, fieldsToJson, Json.mergedFields, toJson_merged v, fieldsToJson_merged r]

end

mutual

theorem toStored_merged : ∀ v : Value, v.merged.toStored = v.toStored.merged
  | undefined | null | bool _ | string _ | date _ | callable _ | method _ _ _ => rfl
  | number x => (Json.merged_ofFloat x).symm
  | array items => congrArg Json.arr (itemsToStored_merged items)
  | object fields => by
    refine congrArg Json.obj ?_
    rw [fieldsToStored_eq_map, ← Fields.ofList_map, ← fieldsToStored_eq_map, fieldsToStored_merged fields]

theorem itemsToStored_merged : ∀ vs : List Value, itemsToStored (mergedItems vs) = Json.mergedItems (itemsToStored vs)
  | [] => rfl
  | v :: r => by rw [mergedItems, itemsToStored, itemsToStored, Json.mergedItems, toStored_merged v, itemsToStored_merged r]

theorem fieldsToStored_merged : ∀ fields : List (String × Value),
    fieldsToStored (mergedFields fields) = Json.mergedFields (fieldsToStored fields)
  | [] => rfl
  | (k, v) :: r => by
    rw [mergedFields, fieldsToStored, fieldsToStored, Json.mergedFields, toStored_merged v, fieldsToStored_merged r]

end

end Value

/-! ## Documents -/

@[simp] theorem Span.merged_toJson (span : Span) : span.toJson.merged = span.toJson := by
  rw [Span.toJson, Json.merged_obj (by simp [Fields.names])]
  rfl

@[simp] theorem AssignOp.merged_toJson (op : AssignOp) : op.toJson.merged = op.toJson := by
  cases op with
  | assign => rfl
  | binary op => rfl
  | logical op => rfl

@[simp] theorem Binding.merged_toJson (b : Binding) : b.toJson.merged = b.toJson := by
  rw [Binding.toJson, Json.merged_obj (by simp [Fields.names])]
  simp [Json.mergedFields, Json.merged]

namespace Expr

mutual

/-- The expression with merged literals. -/
def merged : Expr → Expr
  | literal span v => literal span v.merged
  | identifier span name => identifier span name
  | array span items => array span (mergedItems items)
  | object span fields => object span (mergedFields fields)
  | sequence span items => sequence span (mergedItems items)
  | unary span op e => unary span op (merged e)
  | binary span op a b => binary span op (merged a) (merged b)
  | logical span op a b => logical span op (merged a) (merged b)
  | assignment span op target value => assignment span op (merged target) (merged value)
  | update span op before e => update span op before (merged e)
  | member span base key optional => member span (merged base) (mergedKey key) optional
  | conditional span test a b => conditional span (merged test) (merged a) (merged b)
  | call span callee arguments optional => call span (merged callee) (mergedItems arguments) optional
  | chain span e => chain span (merged e)

def mergedItems : List Expr → List Expr
  | [] => []
  | e :: r => merged e :: mergedItems r

def mergedFields : List (Key × Expr) → List (Key × Expr)
  | [] => []
  | (key, e) :: r => (mergedKey key, merged e) :: mergedFields r

def mergedKey : Key → Key
  | .named name => .named name
  | .computed e => .computed (merged e)

end

theorem merged_kindJson (span : Span) (kind : String) {fields : List (String × Json)}
    (distinct : ("type" :: Fields.names fields).Nodup) :
    (kindJson span kind fields).merged = kindJson span kind (Json.mergedFields fields) := by
  have inner : (Json.obj (("type", .str kind) :: fields)).merged =
      .obj (("type", .str kind) :: Json.mergedFields fields) := Json.merged_obj distinct
  rw [kindJson, Json.merged_obj (by simp [Fields.names]), kindJson]
  simp only [Json.mergedFields, Span.merged_toJson, inner]

mutual

theorem toJson_merged : ∀ e : Expr, e.merged.toJson = e.toJson.merged
  | literal span v => by
    rw [merged, toJson, toJson, merged_kindJson _ _ (by simp [Fields.names])]
    simp only [Json.mergedFields, Value.toJson_merged]
  | identifier span name => by
    rw [merged, toJson, merged_kindJson _ _ (by simp [Fields.names])]
    rfl
  | array span items | sequence span items => by
    rw [merged, toJson, toJson, merged_kindJson _ _ (by simp [Fields.names])]
    simp only [Json.mergedFields, Json.merged, itemsToJson_merged items]
  | object span fields => by
    rw [merged, toJson, toJson, merged_kindJson _ _ (by simp [Fields.names])]
    simp only [Json.mergedFields, Json.merged, fieldsToJson_merged fields]
  | unary span op e => by
    rw [merged, toJson, toJson, merged_kindJson _ _ (by simp [Fields.names])]
    simp only [Json.mergedFields, Json.merged, toJson_merged e]
  | update span op before e => by
    rw [merged, toJson, toJson, merged_kindJson _ _ (by simp [Fields.names])]
    simp only [Json.mergedFields, Json.merged, toJson_merged e]
  | chain span e => by
    rw [merged, toJson, toJson, merged_kindJson _ _ (by simp [Fields.names])]
    simp only [Json.mergedFields, toJson_merged e]
  | binary span op a b | logical span op a b => by
    rw [merged, toJson, toJson, merged_kindJson _ _ (by simp [Fields.names])]
    simp only [Json.mergedFields, Json.merged, toJson_merged a, toJson_merged b]
  | assignment span op a b => by
    rw [merged, toJson, toJson, merged_kindJson _ _ (by simp [Fields.names])]
    simp only [Json.mergedFields, AssignOp.merged_toJson, toJson_merged a, toJson_merged b]
  | member span base key optional => by
    rw [merged, toJson, toJson, merged_kindJson _ _ (by simp [Fields.names])]
    simp only [Json.mergedFields, Json.merged, toJson_merged base, keyToJson_merged key]
  | conditional span test a b => by
    rw [merged, toJson, toJson, merged_kindJson _ _ (by simp [Fields.names])]
    simp only [Json.mergedFields, toJson_merged test, toJson_merged a, toJson_merged b]
  | call span callee arguments optional => by
    rw [merged, toJson, toJson, merged_kindJson _ _ (by simp [Fields.names])]
    simp only [Json.mergedFields, Json.merged, toJson_merged callee, itemsToJson_merged arguments]

theorem itemsToJson_merged : ∀ es : List Expr, itemsToJson (mergedItems es) = Json.mergedItems (itemsToJson es)
  | [] => rfl
  | e :: r => by rw [mergedItems, itemsToJson, itemsToJson, Json.mergedItems, toJson_merged e, itemsToJson_merged r]

theorem fieldsToJson_merged : ∀ fields : List (Key × Expr),
    fieldsToJson (mergedFields fields) = Json.mergedItems (fieldsToJson fields)
  | [] => rfl
  | (key, e) :: r => by
    rw [mergedFields, fieldsToJson, fieldsToJson, Json.mergedItems, Json.merged_obj (by simp [Fields.names]),
      fieldsToJson_merged r]
    simp only [Json.mergedFields, keyToJson_merged key, toJson_merged e]

theorem keyToJson_merged : ∀ key : Key, keyToJson (mergedKey key) = (keyToJson key).merged
  | .named name => rfl
  | .computed e => by
    rw [mergedKey, keyToJson, keyToJson, toJson_merged e]
    rfl

end

end Expr

@[simp] theorem Pointers.merged_toJson (table : Pointers) : table.toJson.merged = table.toJson := by
  have names : Fields.names (table.entries.map fun e => (e.1, Json.int e.2)) = Fields.names table.entries := by
    simp [Fields.names]
  have distinct : (Fields.names table.entries).Nodup :=
    List.pairwise_map.mpr (table.ordered.imp fun {a b} less (same : a.1 = b.1) => String.lt_irrefl b.1 (same ▸ less))
  rw [toJson, Json.merged_obj (names ▸ distinct), Json.mergedFields_eq_map, List.map_map]
  rfl

/-- The cells with merged values. -/
def Stash.merged (stash : Stash) : Stash := stash.map Value.merged

theorem Value.mergedItems_eq_map (vs : List Value) : mergedItems vs = vs.map merged := by
  induction vs with
  | nil => rfl
  | cons v r ih => rw [mergedItems, ih, List.map_cons]

@[simp] theorem Stash.toStored_merged (stash : Stash) : Stash.toStored stash.merged = (Stash.toStored stash).merged := by
  rw [toStored, toStored, merged, Array.toList_map, ← Value.mergedItems_eq_map, Value.itemsToStored_merged]
  rfl

def Scope.merged (scope : Scope) : Scope := ⟨scope.stash.merged, scope.pointers⟩

theorem Scope.toStored_merged (scope : Scope) : scope.merged.toStored = scope.toStored.merged := by
  rw [toStored, toStored, Json.merged_obj (by simp [Fields.names])]
  simp only [merged, Json.mergedFields, Stash.toStored_merged, Pointers.merged_toJson]

def Progress.merged (p : Progress) : Progress :=
  { p with memo := p.memo.map Value.merged, stash := p.stash.map Stash.merged }

/-- What is written of what may be missing. -/
theorem Json.map_merged {α : Type} {f : α → α} {w : α → Json} (same : ∀ a, w (f a) = (w a).merged) (o : Option α) :
    (o.map f).map w = (o.map w).map merged := by
  cases o with
  | none => rfl
  | some a => exact congrArg some (same a)

@[simp] theorem Binding.merged_map_toJson (b : Option Binding) :
    (b.map Binding.toJson).map Json.merged = b.map Binding.toJson := by
  cases b with
  | none => rfl
  | some b => exact congrArg some b.merged_toJson

theorem Progress.toJson_merged (p : Progress) : p.merged.toJson = p.toJson.merged := by
  have table := Json.map_merged (f := id) (w := Pointers.toJson) (fun t => (Pointers.merged_toJson t).symm) p.pointers
  have round := Json.map_merged (f := id) (w := fun n : Nat => Json.int n) (fun _ => rfl) p.round
  have memo := Json.map_merged Value.toStored_merged p.memo
  have cells := Json.map_merged Stash.toStored_merged p.stash
  rw [Option.map_id, id] at table round
  have all (q : Progress) : q.toJson = .obj (Json.present [("completed", some (.bool q.done)),
      ("completedAs", q.memo.map Value.toStored), ("scopePointers", q.pointers.map Pointers.toJson),
      ("loopIterationIndex", q.round.map fun n : Nat => Json.int n), ("scopeStash", q.stash.map Stash.toStored)]) := by
    rw [toJson]
    cases q.round <;> rfl
  rw [all, all, Json.merged_present (by simp)]
  simp only [merged, List.map_cons, List.map_nil, Option.map_some, Json.merged, ← table, ← round, memo, cells]

namespace Node

mutual

/-- The node with merged literals and marks. -/
def merged : Node → Node
  | text span data p => text span data (p.map Progress.merged)
  | comment span data p => comment span data (p.map Progress.merged)
  | config span data p => config span data (p.map Progress.merged)
  | interpolation span e p => interpolation span e.merged (p.map Progress.merged)
  | group span body p => group span (mergedAll body) (p.map Progress.merged)
  | choice span test body none p => choice span test.merged (mergedAll body) none (p.map Progress.merged)
  | choice span test body (some other) p =>
    choice span test.merged (mergedAll body) (some (mergedAll other)) (p.map Progress.merged)
  | loop span items item index body none p =>
    loop span items.merged item index (mergedAll body) none (p.map Progress.merged)
  | loop span items item index body (some other) p =>
    loop span items.merged item index (mergedAll body) (some (mergedAll other)) (p.map Progress.merged)
  | element span tag attributes body p =>
    element span tag (mergedAttributes attributes) (mergedAll body) (p.map Progress.merged)

def mergedAll : List Node → List Node
  | [] => []
  | n :: r => merged n :: mergedAll r

def mergedAttributes : List Attribute → List Attribute
  | [] => []
  | .mk span name .flag :: r => .mk span name .flag :: mergedAttributes r
  | .mk span name (.nodes parts) :: r => .mk span name (.nodes (mergedAll parts)) :: mergedAttributes r

end

theorem merged_kindJson (kind : String) (fields : List (String × Option Json)) (p : Option Progress)
    (distinct : ("type" :: (fields ++ [("status", none)]).map Prod.fst).Nodup) :
    (kindJson kind fields p).merged =
      kindJson kind (fields.map fun e => (e.1, e.2.map Json.merged)) (p.map Progress.merged) := by
  have marks := Json.map_merged Progress.toJson_merged p
  have all : kindJson kind fields p =
      .obj (Json.present (("type", some (.str kind)) :: (fields ++ [("status", p.map Progress.toJson)]))) := rfl
  rw [all, Json.merged_present]
  · rw [List.map_cons, List.map_append, List.map_singleton, ← marks]
    rfl
  · simpa using distinct

mutual

theorem toJson_merged : ∀ n : Node, n.merged.toJson = n.toJson.merged
  | text span data p | comment span data p | config span data p => by
    rw [merged, toJson, toJson, merged_kindJson _ _ _ (by simp)]
    simp only [List.map_cons, List.map_nil, Option.map_some, Json.merged, Span.merged_toJson]
  | interpolation span e p => by
    rw [merged, toJson, toJson, merged_kindJson _ _ _ (by simp)]
    simp only [List.map_cons, List.map_nil, Option.map_some, Span.merged_toJson, Expr.toJson_merged]
  | choice span test body none p => by
    rw [merged, toJson, toJson, merged_kindJson _ _ _ (by simp)]
    simp only [List.map_cons, List.map_nil, Option.map_some, Json.merged, Span.merged_toJson, Expr.toJson_merged,
      allToJson_merged body]
  | choice span test body (some other) p => by
    rw [merged, toJson, toJson, merged_kindJson _ _ _ (by simp)]
    simp only [List.map_cons, List.map_nil, Option.map_some, Json.merged, Span.merged_toJson, Expr.toJson_merged,
      allToJson_merged body, allToJson_merged other]
  | loop span items item index body none p => by
    rw [merged, toJson, toJson, merged_kindJson _ _ _ (by simp)]
    simp only [List.map_cons, List.map_nil, Option.map_some, Json.merged, Span.merged_toJson, Expr.toJson_merged,
      Binding.merged_toJson, Binding.merged_map_toJson, allToJson_merged body]
  | loop span items item index body (some other) p => by
    rw [merged, toJson, toJson, merged_kindJson _ _ _ (by simp)]
    simp only [List.map_cons, List.map_nil, Option.map_some, Json.merged, Span.merged_toJson, Expr.toJson_merged,
      Binding.merged_toJson, Binding.merged_map_toJson, allToJson_merged body, allToJson_merged other]
  | element span tag attributes body p => by
    rw [merged, toJson, toJson, merged_kindJson _ _ _ (by simp)]
    simp only [List.map_cons, List.map_nil, Option.map_some, Json.merged, Span.merged_toJson, allToJson_merged body,
      attributesToJson_merged attributes]
  | group span body p => by
    rw [merged, toJson, toJson, merged_kindJson _ _ _ (by simp)]
    simp only [List.map_cons, List.map_nil, Option.map_some, Json.merged, Span.merged_toJson, allToJson_merged body]

theorem allToJson_merged : ∀ nodes : List Node, allToJson (mergedAll nodes) = Json.mergedItems (allToJson nodes)
  | [] => rfl
  | n :: r => by rw [mergedAll, allToJson, allToJson, Json.mergedItems, toJson_merged n, allToJson_merged r]

theorem attributesToJson_merged : ∀ attributes : List Attribute,
    attributesToJson (mergedAttributes attributes) = Json.mergedItems (attributesToJson attributes)
  | [] => rfl
  | .mk span name .flag :: r => by
    rw [mergedAttributes, attributesToJson, attributesToJson, Json.mergedItems,
      Json.merged_obj (by simp [Fields.names]), attributesToJson_merged r]
    simp only [Json.mergedFields, valueToJson, Json.merged, Span.merged_toJson]
  | .mk span name (.nodes parts) :: r => by
    rw [mergedAttributes, attributesToJson, attributesToJson, Json.mergedItems,
      Json.merged_obj (by simp [Fields.names]), attributesToJson_merged r]
    simp only [Json.mergedFields, valueToJson, Json.merged, Span.merged_toJson, allToJson_merged parts]

end

end Node

/-- The document with merged literals and marks. -/
def Document.merged (d : Document) : Document := ⟨d.span, Node.mergedAll d.body, d.progress.map Progress.merged⟩

theorem Document.toJson_merged (d : Document) : d.merged.toJson = d.toJson.merged := by
  rw [toJson, toJson, Json.merged_present (by simp)]
  simp only [merged, List.map_cons, List.map_nil, Option.map_some, Json.merged, Span.merged_toJson,
    Node.allToJson_merged, Json.map_merged Progress.toJson_merged]

/-! ## Messages -/

theorem SourceRef.merged_toJson (r : SourceRef) : r.toJson.merged = r.toJson := by
  rw [toJson, Json.merged_present (by simp)]
  cases r.identifier <;> rfl

/-- Attributes with merged values. -/
def Attributes.merged (attributes : Attributes) : Attributes := attributes.map fun e => (e.1, e.2.merged)

theorem Attributes.toJson_merged (attributes : Attributes) : attributes.merged.toJson = Json.mergedFields attributes.toJson := by
  simp [merged, toJson, Json.mergedFields_eq_map, Value.toJson_merged]

namespace Content

/-- The item with merged values. -/
def mergedValues : Content → Content
  | text s sources a => text s sources a.merged
  | image url a => image url a.merged
  | file url mimeType a => file url mimeType a.merged
  | toolCall id name arguments a => toolCall id name arguments.merged a.merged
  | toolResult id name result failed a => toolResult id name result.merged failed a.merged

theorem ownFields_mergedValues (c : Content) : c.mergedValues.ownFields = Json.mergedFields c.ownFields := by
  cases c with
  | text s sources a =>
    cases sources with
    | none => rfl
    | some refs =>
      have same : Json.mergedItems (refs.map SourceRef.toJson) = refs.map SourceRef.toJson := by
        rw [Json.mergedItems_eq_map, List.map_map]
        exact List.map_congr_left fun r _ => r.merged_toJson
      exact congrArg (fun items => [("text", Json.str s), ("_promptlSourceMap", Json.arr items)]) same.symm
  | image url a => rfl
  | file url mimeType a => rfl
  | toolCall id name arguments a =>
    simp only [mergedValues, ownFields, Json.mergedFields, Json.merged, Value.toJson_merged]
  | toolResult id name result failed a =>
    rw [mergedValues, ownFields, ownFields, Json.mergedFields_present]
    simp only [List.map_cons, List.map_nil, Option.map_some, Json.merged, Value.toJson_merged]
    cases failed <;> rfl

theorem entries_mergedValues (c : Content) : c.mergedValues.entries = Json.mergedFields c.entries := by
  have values : c.mergedValues.attributes = c.attributes.merged := by cases c <;> rfl
  have kind : c.mergedValues.kindName = c.kindName := by cases c <;> rfl
  rw [entries, entries, values, kind, Attributes.toJson_merged, ownFields_mergedValues, Json.mergedFields_eq_map,
    Json.mergedFields_eq_map, Json.mergedFields_eq_map, List.map_cons, List.map_append]
  rfl

end Content

namespace Message

/-- The message with merged values. -/
def mergedValues (m : Message) : Message := ⟨m.role, m.content.map Content.mergedValues, m.attributes.merged⟩

/-- Of attributes under one name, the last one is read, in the place of the first. -/
theorem merged_toWritten (m : Message) : m.toWritten.merged = m.mergedValues.toJson := by
  have items : Json.mergedItems (m.content.map fun c => .obj c.entries) =
      (m.content.map Content.mergedValues).map Content.toJson := by
    rw [Json.mergedItems_eq_map, List.map_map, List.map_map]
    refine List.map_congr_left fun c _ => ?_
    exact congrArg (fun entries => Json.obj (Fields.ofList entries)) c.entries_mergedValues.symm
  have all : Json.mergedFields (m.entries fun c => .obj c.entries) = m.mergedValues.entries Content.toJson := by
    rw [entries, entries, mergedValues, Attributes.toJson_merged, ← items, Json.mergedFields_eq_map,
      Json.mergedFields_eq_map, List.map_append]
    rfl
  exact congrArg (fun entries => Json.obj (Fields.ofList entries)) all

end Message

/-! ## Chains -/

theorem Options.merged_toJson (o : Options) : o.toJson.merged = o.toJson := by
  rw [toJson, Json.merged_obj (by simp [Fields.names])]
  rfl

namespace Chain

/-- The chain whose values, and the header with them, repeat no name. -/
def merged (chain : Chain) : Chain :=
  { chain with
    document := chain.document.merged, scope := chain.scope.merged,
    config := chain.config.map fun c => Fields.ofList (Json.mergedFields c),
    history := chain.history.map Message.mergedValues }

/-- **What is read of the text of a chain is a chain in JSON**, that of its merged values. -/
theorem merged_stored (chain : Chain) : (chain.stored Message.toWritten).merged = chain.merged.toJson := by
  have config := Json.map_merged (f := fun c => Fields.ofList (Json.mergedFields c)) (w := Json.obj) (fun _ => rfl) chain.config
  have history : Json.mergedItems (chain.history.map Message.toWritten) =
      (chain.history.map Message.mergedValues).map Message.toJson := by
    rw [Json.mergedItems_eq_map, List.map_map, List.map_map]
    exact List.map_congr_left fun m _ => m.merged_toWritten
  rw [stored, Json.merged_present (by simp), toJson, stored]
  simp only [merged, List.map_cons, List.map_nil, Option.map_some, Json.merged, ← Document.toJson_merged,
    ← Scope.toStored_merged, Options.merged_toJson, config, history]

end Chain
end PromptScript
