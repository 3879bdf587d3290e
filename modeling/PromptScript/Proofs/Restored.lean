import PromptScript.Proofs.Stored

/-! # Documents through JSON

A document is read as it was written, but for its literals and for the values in its marks of progress, of which the
stored form leaves what it leaves of any value. -/
namespace PromptScript

/-! ## Fields that may be missing -/

section Present

variable {α β : Type} {name : String} {fields : List (String × Json)}

theorem Json.get?_present_cons (k : String) (o : Option Json) (r : List (String × Option Json)) :
    Fields.get? name (present ((k, o) :: r)) =
      if k = name then o.or (Fields.get? name (present r)) else Fields.get? name (present r) := by
  cases o with
  | none =>
    show Fields.get? name (present r) = _
    split <;> rfl
  | some j =>
    show (if k = name then some j else Fields.get? name (present r)) = _
    split <;> rfl

theorem Json.get?_present_nil : Fields.get? name (present []) = none := rfl

theorem Json.depthFields_present_cons (k : String) (o : Option Json) (r : List (String × Option Json)) :
    depthFields (present ((k, o) :: r)) = max ((o.map depth).getD 0) (depthFields (present r)) := by
  cases o with
  | none => exact (Nat.zero_max _).symm
  | some j => rfl

/-- A field that is left out or written, and may be missing. -/
theorem Json.given?_of_get? {read : Json → Option β} {w : α → Json} {f : α → β} {o : Option α}
    (there : Fields.get? name fields = o.map w) (back : ∀ a, read (w a) = some (f a)) :
    given? name read fields = some (o.map f) := by
  unfold given?
  rw [there]
  cases o with
  | none => rfl
  | some a => exact congrArg (Option.map some) (back a)

/-- The same where the field may also be null, which what is written is not. -/
theorem Json.allow?_of_get? {read : Json → Option β} {w : α → Json} {f : α → β} {o : Option α}
    (there : Fields.get? name fields = o.map w) (back : ∀ a, read (w a) = some (f a)) (real : ∀ a, w a ≠ .null) :
    allow? name read fields = some (o.map f) := by
  unfold allow?
  rw [there]
  cases o with
  | none => rfl
  | some a =>
    dsimp only [Option.map_some]
    split
    · next h => cases h
    · next h => exact absurd (Option.some.inj h) (real a)
    · next h =>
      obtain rfl := Option.some.inj h
      exact congrArg (Option.map some) (back a)

end Present

/-! ## Marks of progress -/

namespace Pointers

/-- A name behind all others is put at the end. -/
theorem insertEntry_of_last {name : String} {cell : Nat} : ∀ {entries : List (String × Nat)},
    (∀ e ∈ entries, e.1 < name) → insertEntry name cell entries = entries ++ [(name, cell)]
  | [], _ => rfl
  | (n, i) :: r, before => by
    have here : n < name := before (n, i) List.mem_cons_self
    have other : n ≠ name := fun same => String.lt_irrefl name (same ▸ here)
    have later : ¬name < n := fun back => String.lt_irrefl n (String.lt_trans here back)
    rw [insertEntry, if_neg other, if_neg later,
      insertEntry_of_last fun e there => before e (List.mem_cons_of_mem _ there)]
    rfl

/-- The entries of a table give it back. -/
theorem ofList_entries (table : Pointers) : ofList table.entries = table := by
  suffices build : ∀ (later : List (String × Nat)) (acc : Pointers),
      (acc.entries ++ later).Pairwise (·.1 < ·.1) →
        (later.foldl (fun acc e => insert e.1 e.2 acc) acc).entries = acc.entries ++ later from
    ext (build table.entries empty table.ordered)
  intro later
  induction later with
  | nil => exact fun acc _ => (List.append_nil _).symm
  | cons e r ih =>
    intro acc ordered
    have last : insertEntry e.1 e.2 acc.entries = acc.entries ++ [e] :=
      insertEntry_of_last fun x there => (List.pairwise_append.mp ordered).2.2 x there e List.mem_cons_self
    have next : (insert e.1 e.2 acc).entries = acc.entries ++ [e] := last
    rw [List.foldl_cons, ih, next, List.append_assoc]
    · rfl
    · rw [next, List.append_assoc]
      exact ordered

theorem ofJson?_toJson (table : Pointers) : ofJson? table.toJson = some table := by
  unfold ofJson? toJson
  simp only [Json.obj?, Option.bind_eq_bind, Option.bind_some]
  refine (congrArg (Option.bind · _) (?_ : _ = some table.entries)).trans (congrArg some (ofList_entries table))
  induction table.entries with
  | nil => rfl
  | cons e r ih => simp [Json.index?_natCast, ih]

end Pointers

/-- What the stored form leaves of cells. -/
def Stash.restored (stash : Stash) : Stash := stash.map Value.restored

theorem Stash.ofStored?_toStored (stash : Stash) : ofStored? (toStored stash) = some stash.restored := by
  show some (Value.itemsOfStored (Value.itemsToStored stash.toList)).toArray = some (stash.map Value.restored)
  rw [Value.itemsOfStored_itemsToStored, ← Array.toList_map]

/-- The stored form keeps cells just if it keeps the value in each. -/
theorem Stash.restored_eq_iff (stash : Stash) : stash.restored = stash ↔ ∀ v ∈ stash.toList, v.restored = v := by
  have list := List.map_inj_left (f := Value.restored) (g := id) (l := stash.toList)
  rw [List.map_id] at list
  rw [← Array.toList_inj, restored, Array.toList_map]
  exact list

namespace Progress

/-- The marks with what the stored form leaves of their values. -/
def restored (p : Progress) : Progress :=
  { p with memo := p.memo.map Value.restored, stash := p.stash.map Stash.restored }

/-- The values in marks. -/
def values (p : Progress) : List Value := p.memo.toList ++ (p.stash.map Array.toList).getD []

theorem ofJson?_toJson (p : Progress) : ofJson? p.toJson = some p.restored := by
  obtain ⟨done, memo, pointers, round, stash⟩ := p
  unfold ofJson? toJson
  simp only [Json.record?, Option.bind_eq_bind, Option.bind_some]
  rw [Json.given?_of_get? (w := Json.bool) (f := id) (o := some done) (by simp [Json.get?_present_cons]) fun _ => rfl,
    Json.given?_of_get? (w := Value.toStored) (f := Value.restored) (o := memo)
      (by simp [Json.get?_present_cons, Json.get?_present_nil]) fun _ => rfl,
    Json.allow?_of_get? (w := Pointers.toJson) (f := id) (o := pointers)
      (by simp [Json.get?_present_cons, Json.get?_present_nil]) Pointers.ofJson?_toJson nofun,
    Json.allow?_of_get? (w := fun n : Nat => Json.int n) (f := id) (o := round)
      (by cases round <;> simp [Json.get?_present_cons, Json.get?_present_nil]) Json.index?_natCast nofun,
    Json.given?_of_get? (w := Stash.toStored) (f := Stash.restored) (o := stash)
      (by simp [Json.get?_present_cons, Json.get?_present_nil]) Stash.ofStored?_toStored]
  simp [restored]

/-- The values in the marks of a node, if it has any. -/
def valuesOf (p : Option Progress) : List Value := (p.map values).getD []

end Progress

theorem Binding.ofJson?_toJson (b : Binding) : ofJson? b.toJson = some b := by
  simp [ofJson?, toJson, Json.record?, Json.need?, Fields.get?, Json.str?]

namespace Node

mutual

/-- The values of the literals in a node. -/
def literals : Node → List Value
  | text _ _ _ | comment _ _ _ | config _ _ _ => []
  | interpolation _ e _ => e.literals
  | choice _ test body none _ => test.literals ++ literalsOfAll body
  | choice _ test body (some other) _ => test.literals ++ literalsOfAll body ++ literalsOfAll other
  | loop _ items _ _ body none _ => items.literals ++ literalsOfAll body
  | loop _ items _ _ body (some other) _ => items.literals ++ literalsOfAll body ++ literalsOfAll other
  | element _ _ attributes body _ => literalsOfAttributes attributes ++ literalsOfAll body
  | group _ body _ => literalsOfAll body

def literalsOfAll : List Node → List Value
  | [] => []
  | n :: r => literals n ++ literalsOfAll r

def literalsOfAttributes : List Attribute → List Value
  | [] => []
  | .mk _ _ .flag :: r => literalsOfAttributes r
  | .mk _ _ (.nodes parts) :: r => literalsOfAll parts ++ literalsOfAttributes r

end

mutual

/-- The values in the marks on a node and in it. -/
def values : Node → List Value
  | text _ _ p | comment _ _ p | config _ _ p | interpolation _ _ p => Progress.valuesOf p
  | choice _ _ body none p => valuesOfAll body ++ Progress.valuesOf p
  | choice _ _ body (some other) p => valuesOfAll body ++ valuesOfAll other ++ Progress.valuesOf p
  | loop _ _ _ _ body none p => valuesOfAll body ++ Progress.valuesOf p
  | loop _ _ _ _ body (some other) p => valuesOfAll body ++ valuesOfAll other ++ Progress.valuesOf p
  | element _ _ attributes body p => valuesOfAttributes attributes ++ valuesOfAll body ++ Progress.valuesOf p
  | group _ body p => valuesOfAll body ++ Progress.valuesOf p

def valuesOfAll : List Node → List Value
  | [] => []
  | n :: r => values n ++ valuesOfAll r

def valuesOfAttributes : List Attribute → List Value
  | [] => []
  | .mk _ _ .flag :: r => valuesOfAttributes r
  | .mk _ _ (.nodes parts) :: r => valuesOfAll parts ++ valuesOfAttributes r

end

mutual

/-- The node with what JSON leaves of its literals and of the values in its marks. -/
def restored : Node → Node
  | text span data p => text span data (p.map Progress.restored)
  | comment span data p => comment span data (p.map Progress.restored)
  | config span data p => config span data (p.map Progress.restored)
  | interpolation span e p => interpolation span e.restored (p.map Progress.restored)
  | choice span test body none p =>
    choice span test.restored (restoredAll body) none (p.map Progress.restored)
  | choice span test body (some other) p =>
    choice span test.restored (restoredAll body) (some (restoredAll other)) (p.map Progress.restored)
  | loop span items item index body none p =>
    loop span items.restored item index (restoredAll body) none (p.map Progress.restored)
  | loop span items item index body (some other) p =>
    loop span items.restored item index (restoredAll body) (some (restoredAll other)) (p.map Progress.restored)
  | element span tag attributes body p =>
    element span tag (restoredAttributes attributes) (restoredAll body) (p.map Progress.restored)
  | group span body p => group span (restoredAll body) (p.map Progress.restored)

def restoredAll : List Node → List Node
  | [] => []
  | n :: r => restored n :: restoredAll r

def restoredAttributes : List Attribute → List Attribute
  | [] => []
  | .mk span name .flag :: r => .mk span name .flag :: restoredAttributes r
  | .mk span name (.nodes parts) :: r => .mk span name (.nodes (restoredAll parts)) :: restoredAttributes r

end

/-! ## Reading what was written -/

theorem tagged?_kindJson (nested : Bool) (kind : String) (fields : List (String × Option Json)) (p : Option Progress) :
    Json.tagged? (kinds nested) (kindJson kind fields p) =
      some (kind, .obj (Json.present (fields ++ [("status", p.map Progress.toJson)]))) := by
  simp [kindJson, Json.tagged?, Json.kind?, Fields.get?, Fields.erase]

theorem depth_kindJson (kind : String) (fields : List (String × Option Json)) (p : Option Progress) :
    (kindJson kind fields p).depth =
      1 + Json.depthFields (Json.present (fields ++ [("status", p.map Progress.toJson)])) := by
  simp only [kindJson, Json.depth, Json.depthFields, Nat.zero_max]

theorem allow?_status {fields : List (String × Json)} {p : Option Progress}
    (there : Fields.get? "status" fields = p.map Progress.toJson) :
    Json.allow? "status" Progress.ofJson? fields = some (p.map Progress.restored) :=
  Json.allow?_of_get? there Progress.ofJson?_toJson nofun

theorem allow?_index {fields : List (String × Json)} (index : Option Binding)
    (there : Fields.get? "index" fields = index.map Binding.toJson) :
    Json.allow? "index" Binding.ofJson? fields = some index := by
  rw [Json.allow?_of_get? (f := id) there Binding.ofJson?_toJson nofun, Option.map_id, id]

mutual

/-- **Reading is the inverse of writing**, but for literals and for values in marks. -/
theorem ofJsonWithin?_toJson : ∀ (n : Node) (d : Nat) (nested : Bool), n.toJson.depth < d →
    ofJsonWithin? d nested n.toJson = some n.restored
  | n, 0, _, bound => absurd bound (Nat.not_lt_zero _)
  | text span data p, d + 1, nested, _ => by
    unfold toJson ofJsonWithin?
    rw [tagged?_kindJson]
    simp only [Json.record?, Option.bind_eq_bind, Option.bind_some]
    rw [allow?_status (p := p) (by simp [Json.get?_present_cons, Json.get?_present_nil])]
    simp [Json.need?, Json.get?_present_cons, Json.str?, restored]
  | comment span data p, d + 1, nested, _ => by
    unfold toJson ofJsonWithin?
    rw [tagged?_kindJson]
    simp only [Json.record?, Option.bind_eq_bind, Option.bind_some]
    rw [allow?_status (p := p) (by simp [Json.get?_present_cons, Json.get?_present_nil])]
    simp [Json.need?, Json.get?_present_cons, Json.str?, restored]
  | config span data p, d + 1, nested, _ => by
    unfold toJson ofJsonWithin?
    rw [tagged?_kindJson]
    simp only [Json.record?, Option.bind_eq_bind, Option.bind_some]
    rw [allow?_status (p := p) (by simp [Json.get?_present_cons, Json.get?_present_nil])]
    simp [Json.need?, Json.get?_present_cons, Json.str?, restored]
  | interpolation span e p, d + 1, nested, _ => by
    unfold toJson ofJsonWithin?
    rw [tagged?_kindJson]
    simp only [Json.record?, Option.bind_eq_bind, Option.bind_some]
    rw [allow?_status (p := p) (by simp [Json.get?_present_cons, Json.get?_present_nil])]
    simp [Json.need?, Json.get?_present_cons, restored]
  | choice span test body none p, d + 1, nested, bound => by
    rw [toJson, depth_kindJson] at bound
    simp only [List.cons_append, List.nil_append, Json.depthFields_present_cons, Option.map_some, Option.getD_some,
      Json.depth] at bound
    have read := allOfJsonWithin?_toJson body d true (by omega)
    unfold toJson ofJsonWithin?
    rw [tagged?_kindJson]
    simp only [Json.record?, Option.bind_eq_bind, Option.bind_some]
    rw [allow?_status (p := p) (by simp [Json.get?_present_cons, Json.get?_present_nil])]
    simp [Json.need?, Json.allow?, Json.get?_present_cons, Json.get?_present_nil, Json.list?, Json.arr?, restored, read]
  | choice span test body (some other) p, d + 1, nested, bound => by
    rw [toJson, depth_kindJson] at bound
    simp only [List.cons_append, List.nil_append, Json.depthFields_present_cons, Option.map_some, Option.getD_some,
      Json.depth] at bound
    have read := allOfJsonWithin?_toJson body d true (by omega)
    have more := allOfJsonWithin?_toJson other d true (by omega)
    unfold toJson ofJsonWithin?
    rw [tagged?_kindJson]
    simp only [Json.record?, Option.bind_eq_bind, Option.bind_some]
    rw [allow?_status (p := p) (by simp [Json.get?_present_cons, Json.get?_present_nil])]
    simp [Json.need?, Json.allow?, Json.get?_present_cons, Json.list?, Json.arr?, restored, read, more]
  | loop span items item index body none p, d + 1, nested, bound => by
    rw [toJson, depth_kindJson] at bound
    simp only [List.cons_append, List.nil_append, Json.depthFields_present_cons, Option.map_some, Option.getD_some,
      Json.depth] at bound
    have read := allOfJsonWithin?_toJson body d true (by omega)
    unfold toJson ofJsonWithin?
    rw [tagged?_kindJson]
    simp only [Json.record?, Option.bind_eq_bind, Option.bind_some]
    rw [allow?_status (p := p) (by simp [Json.get?_present_cons, Json.get?_present_nil]),
      allow?_index index (by simp [Json.get?_present_cons, Json.get?_present_nil])]
    simp [Json.need?, Json.allow?, Json.get?_present_cons, Json.get?_present_nil, Json.list?, Json.arr?,
      Binding.ofJson?_toJson, restored, read]
  | loop span items item index body (some other) p, d + 1, nested, bound => by
    rw [toJson, depth_kindJson] at bound
    simp only [List.cons_append, List.nil_append, Json.depthFields_present_cons, Option.map_some, Option.getD_some,
      Json.depth] at bound
    have read := allOfJsonWithin?_toJson body d true (by omega)
    have more := allOfJsonWithin?_toJson other d true (by omega)
    unfold toJson ofJsonWithin?
    rw [tagged?_kindJson]
    simp only [Json.record?, Option.bind_eq_bind, Option.bind_some]
    rw [allow?_status (p := p) (by simp [Json.get?_present_cons, Json.get?_present_nil]),
      allow?_index index (by simp [Json.get?_present_cons, Json.get?_present_nil])]
    simp [Json.need?, Json.allow?, Json.get?_present_cons, Json.list?, Json.arr?, Binding.ofJson?_toJson, restored,
      read, more]
  | element span tag attributes body p, d + 1, nested, bound => by
    rw [toJson, depth_kindJson] at bound
    simp only [List.cons_append, List.nil_append, Json.depthFields_present_cons, Option.map_some, Option.getD_some,
      Json.depth] at bound
    have read := allOfJsonWithin?_toJson body d true (by omega)
    have named := attributesOfJsonWithin?_toJson attributes d (by omega)
    unfold toJson ofJsonWithin?
    rw [tagged?_kindJson]
    simp only [Json.record?, Option.bind_eq_bind, Option.bind_some]
    rw [allow?_status (p := p) (by simp [Json.get?_present_cons, Json.get?_present_nil])]
    simp [Json.need?, Json.get?_present_cons, Json.str?, Json.list?, Json.arr?, Tag.ofName?_name, restored, read, named]
  | group span body p, d + 1, nested, bound => by
    rw [toJson, depth_kindJson] at bound
    simp only [List.cons_append, List.nil_append, Json.depthFields_present_cons, Option.map_some, Option.getD_some,
      Json.depth] at bound
    have read := allOfJsonWithin?_toJson body d true (by omega)
    unfold toJson ofJsonWithin?
    rw [tagged?_kindJson]
    simp only [Json.record?, Option.bind_eq_bind, Option.bind_some]
    rw [allow?_status (p := p) (by simp [Json.get?_present_cons, Json.get?_present_nil])]
    simp [Json.need?, Json.get?_present_cons, Json.list?, Json.arr?, restored, read]

theorem allOfJsonWithin?_toJson : ∀ (nodes : List Node) (d : Nat) (nested : Bool),
    Json.depthItems (allToJson nodes) < d → (allToJson nodes).mapM (ofJsonWithin? d nested) = some (restoredAll nodes)
  | [], _, _, _ => rfl
  | n :: r, d, nested, bound => by
    simp only [allToJson, Json.depthItems] at bound
    have first := ofJsonWithin?_toJson n d nested (by omega)
    have rest := allOfJsonWithin?_toJson r d nested (by omega)
    simp [allToJson, restoredAll, first, rest]

theorem attributesOfJsonWithin?_toJson : ∀ (attributes : List Attribute) (d : Nat),
    Json.depthItems (attributesToJson attributes) < d →
    (attributesToJson attributes).mapM (attributeOfJson? (ofJsonWithin? d true)) = some (restoredAttributes attributes)
  | [], _, _ => rfl
  | .mk span name .flag :: r, d, bound => by
    simp only [attributesToJson, Json.depthItems] at bound
    have rest := attributesOfJsonWithin?_toJson r d (by omega)
    simp [attributesToJson, restoredAttributes, attributeOfJson?, valueToJson, valueOfJson?, Json.record?, Json.need?,
      Fields.get?, Json.str?, rest]
  | .mk span name (.nodes parts) :: r, d, bound => by
    simp only [attributesToJson, valueToJson, Json.depthItems, Json.depth, Json.depthFields] at bound
    have inside := allOfJsonWithin?_toJson parts d true (by omega)
    have rest := attributesOfJsonWithin?_toJson r d (by omega)
    simp [attributesToJson, restoredAttributes, attributeOfJson?, valueToJson, valueOfJson?, Json.record?, Json.need?,
      Fields.get?, Json.str?, inside, rest]

end

theorem ofJson?_toJson (n : Node) : ofJson? n.toJson = some n.restored :=
  ofJsonWithin?_toJson n _ false (Nat.lt_succ_self _)

/-! ## Values that are kept -/

theorem map_restored_eq_iff (p : Option Progress) :
    p.map Progress.restored = p ↔ ∀ v ∈ Progress.valuesOf p, v.restored = v := by
  cases p with
  | none => simp [Progress.valuesOf]
  | some p =>
    obtain ⟨done, memo, pointers, round, stash⟩ := p
    cases memo <;> cases stash <;>
      simp [Progress.valuesOf, Progress.values, Progress.restored, Stash.restored_eq_iff]

mutual

/-- A node is read as it was written just if its literals are plain and the stored form keeps the values in its
marks. -/
theorem restored_eq_iff : ∀ n : Node, n.restored = n ↔
    (∀ v ∈ n.literals, v.isPlain = true) ∧ ∀ v ∈ n.values, v.restored = v
  | text _ _ p => by
    simp only [restored, literals, values, text.injEq, true_and, map_restored_eq_iff, List.not_mem_nil,
      false_imp_iff, implies_true]
  | comment _ _ p => by
    simp only [restored, literals, values, comment.injEq, true_and, map_restored_eq_iff, List.not_mem_nil,
      false_imp_iff, implies_true]
  | config _ _ p => by
    simp only [restored, literals, values, config.injEq, true_and, map_restored_eq_iff, List.not_mem_nil,
      false_imp_iff, implies_true]
  | interpolation _ e p => by
    simp only [restored, literals, values, interpolation.injEq, true_and, map_restored_eq_iff, Expr.restored_eq_iff]
  | choice _ test body none p => by
    simp only [restored, literals, values, choice.injEq, true_and, map_restored_eq_iff, Expr.restored_eq_iff,
      restoredAll_eq_iff body, List.forall_mem_append, and_assoc]
  | choice _ test body (some other) p => by
    simp only [restored, literals, values, choice.injEq, true_and, map_restored_eq_iff, Expr.restored_eq_iff,
      restoredAll_eq_iff body, restoredAll_eq_iff other, Option.some.injEq, List.forall_mem_append, and_assoc,
      and_left_comm]
  | loop _ items _ _ body none p => by
    simp only [restored, literals, values, loop.injEq, true_and, map_restored_eq_iff, Expr.restored_eq_iff,
      restoredAll_eq_iff body, List.forall_mem_append, and_assoc]
  | loop _ items _ _ body (some other) p => by
    simp only [restored, literals, values, loop.injEq, true_and, map_restored_eq_iff, Expr.restored_eq_iff,
      restoredAll_eq_iff body, restoredAll_eq_iff other, Option.some.injEq, List.forall_mem_append, and_assoc,
      and_left_comm]
  | element _ _ attributes body p => by
    simp only [restored, literals, values, element.injEq, true_and, map_restored_eq_iff,
      restoredAttributes_eq_iff attributes, restoredAll_eq_iff body, List.forall_mem_append, and_assoc, and_left_comm]
  | group _ body p => by
    simp only [restored, literals, values, group.injEq, true_and, map_restored_eq_iff, restoredAll_eq_iff body,
      List.forall_mem_append, and_assoc]

theorem restoredAll_eq_iff : ∀ nodes : List Node, restoredAll nodes = nodes ↔
    (∀ v ∈ literalsOfAll nodes, v.isPlain = true) ∧ ∀ v ∈ valuesOfAll nodes, v.restored = v
  | [] => by
    simp only [restoredAll, literalsOfAll, valuesOfAll, List.not_mem_nil, false_imp_iff, implies_true, true_and]
  | n :: r => by
    simp only [restoredAll, literalsOfAll, valuesOfAll, List.cons.injEq, restored_eq_iff n, restoredAll_eq_iff r,
      List.forall_mem_append, and_assoc, and_left_comm]

theorem restoredAttributes_eq_iff : ∀ attributes : List Attribute, restoredAttributes attributes = attributes ↔
    (∀ v ∈ literalsOfAttributes attributes, v.isPlain = true) ∧ ∀ v ∈ valuesOfAttributes attributes, v.restored = v
  | [] => by
    simp only [restoredAttributes, literalsOfAttributes, valuesOfAttributes, List.not_mem_nil, false_imp_iff,
      implies_true, true_and]
  | .mk _ _ .flag :: r => by
    simp only [restoredAttributes, literalsOfAttributes, valuesOfAttributes, List.cons.injEq, true_and,
      restoredAttributes_eq_iff r]
  | .mk _ _ (.nodes parts) :: r => by
    simp only [restoredAttributes, literalsOfAttributes, valuesOfAttributes, List.cons.injEq, Attribute.mk.injEq,
      AttributeValue.nodes.injEq, true_and, restoredAll_eq_iff parts, restoredAttributes_eq_iff r,
      List.forall_mem_append, and_assoc, and_left_comm]

end

end Node

namespace Document

/-- The values of the literals in a document. -/
def literals (d : Document) : List Value := Node.literalsOfAll d.body

/-- The values in the marks of a document. -/
def values (d : Document) : List Value := Node.valuesOfAll d.body ++ Progress.valuesOf d.progress

/-- The document with what JSON leaves of its literals and of the values in its marks. -/
def restored (d : Document) : Document :=
  { d with body := Node.restoredAll d.body, progress := d.progress.map Progress.restored }

theorem ofJson?_toJson (d : Document) : ofJson? d.toJson = some d.restored := by
  have nodes : ∀ nodes : List Node, (Node.allToJson nodes).mapM Node.ofJson? = some (Node.restoredAll nodes) := by
    intro nodes
    induction nodes with
    | nil => rfl
    | cons n r ih => simp [Node.allToJson, Node.restoredAll, Node.ofJson?_toJson, ih]
  unfold ofJson? toJson
  simp only [Json.record?, Option.bind_eq_bind, Option.bind_some]
  rw [Node.allow?_status (p := d.progress) (by simp [Json.get?_present_cons, Json.get?_present_nil])]
  simp [Json.need?, Json.get?_present_cons, Json.list?, Json.arr?, restored, nodes]

/-- A document is read as it was written just if its literals are plain and the stored form keeps the values in its
marks. -/
theorem restored_eq_iff (d : Document) : d.restored = d ↔
    (∀ v ∈ d.literals, v.isPlain = true) ∧ ∀ v ∈ d.values, v.restored = v := by
  obtain ⟨span, body, progress⟩ := d
  simp only [restored, literals, values, mk.injEq, true_and, Node.restoredAll_eq_iff, Node.map_restored_eq_iff,
    List.forall_mem_append, and_assoc]

end Document
end PromptScript
