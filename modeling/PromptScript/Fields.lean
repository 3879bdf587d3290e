/-! # Ordered fields

Objects, configurations and attribute lists are lists of named entries in the order of first insertion.
Writing a name that is there keeps its place and takes the new entry. -/
namespace PromptScript.Fields

variable {α β : Type}

/-- The entry of a name. -/
def get? (name : String) : List (String × α) → Option α
  | [] => none
  | (k, v) :: r => if k = name then some v else get? name r

/-- Whether a name has an entry. -/
def has (name : String) (fields : List (String × α)) : Bool := (get? name fields).isSome

/-- The fields with `name` set to `value`: in its place, or at the end if the name is new. -/
def set (name : String) (value : α) : List (String × α) → List (String × α)
  | [] => [(name, value)]
  | (k, v) :: r => if k = name then (k, value) :: r else (k, v) :: set name value r

/-- The fields without a name. -/
def erase (name : String) : List (String × α) → List (String × α)
  | [] => []
  | (k, v) :: r => if k = name then r else (k, v) :: erase name r

/-- Sets every entry of `more`, from first to last. -/
def merge (fields more : List (String × α)) : List (String × α) :=
  more.foldl (fun acc e => set e.1 e.2 acc) fields

/-- Fields from entries that may repeat a name. -/
def ofList (entries : List (String × α)) : List (String × α) := merge [] entries

/-- The names, in order. -/
def names (fields : List (String × α)) : List String := fields.map Prod.fst

theorem get?_set_same (name : String) (value : α) (fields : List (String × α)) :
    get? name (set name value fields) = some value := by
  induction fields with
  | nil => simp [set, get?]
  | cons e r ih =>
    unfold set
    split <;> simp_all [get?]

theorem get?_set_other {name other : String} (h : other ≠ name) (value : α)
    (fields : List (String × α)) : get? other (set name value fields) = get? other fields := by
  induction fields with
  | nil => simp [set, get?, h.symm]
  | cons e r ih =>
    unfold set
    split
    · next hk => simp [get?, hk, h.symm]
    · simp only [get?, ih]

theorem get?_eq_none_iff {name : String} {fields : List (String × α)} :
    get? name fields = none ↔ name ∉ names fields := by
  induction fields with
  | nil => simp [get?, names]
  | cons e r ih =>
    unfold get?
    split
    · next h => simp [names, h]
    · next h =>
      rw [ih]
      simp [names, Ne.symm h]

/-- Setting a name adds it at the end, or changes nothing in the list of names. -/
theorem names_set (name : String) (value : α) (fields : List (String × α)) :
    names (set name value fields) =
      if name ∈ names fields then names fields else names fields ++ [name] := by
  induction fields with
  | nil => simp [set, names]
  | cons e r ih =>
    unfold set
    split
    · next h => simp [names, h]
    · next h =>
      simp only [names, List.map_cons, List.mem_cons, Ne.symm h, false_or] at ih ⊢
      rw [ih]
      by_cases hm : name ∈ List.map Prod.fst r <;> simp [hm]

theorem mem_names_set {name other : String} {value : α} {fields : List (String × α)} :
    other ∈ names (set name value fields) ↔ other ∈ names fields ∨ other = name := by
  rw [names_set]
  by_cases member : name ∈ names fields
  · rw [if_pos member]
    exact ⟨.inl, fun h => h.elim id fun same => same ▸ member⟩
  · rw [if_neg member, List.mem_append, List.mem_singleton]

theorem nodup_names_set {fields : List (String × α)} (h : (names fields).Nodup) (name : String)
    (value : α) : (names (set name value fields)).Nodup := by
  rw [names_set]
  split
  · exact h
  · next hn =>
    rw [List.nodup_append]
    exact ⟨h, by simp, by rintro a ha b hb rfl; simp_all⟩

/-- Fields built from any entries have no name twice. -/
theorem nodup_names_ofList (entries : List (String × α)) : (names (ofList entries)).Nodup := by
  suffices h : ∀ acc : List (String × α), (names acc).Nodup → (names (merge acc entries)).Nodup from
    h [] (by simp [names])
  induction entries with
  | nil => exact fun _ h => h
  | cons e r ih => exact fun acc h => ih _ (nodup_names_set h e.1 e.2)

/-- They have the names of the entries. -/
theorem mem_names_ofList {name : String} {entries : List (String × α)} :
    name ∈ names (ofList entries) ↔ name ∈ names entries := by
  suffices h : ∀ acc : List (String × α), name ∈ names (merge acc entries) ↔ name ∈ names acc ∨ name ∈ names entries from
    (h []).trans (or_iff_right List.not_mem_nil)
  induction entries with
  | nil => exact fun acc => (or_iff_left List.not_mem_nil).symm
  | cons e r ih =>
    intro acc
    refine (ih _).trans ?_
    rw [mem_names_set, or_assoc]
    exact or_congr_right List.mem_cons.symm

end PromptScript.Fields
