import PromptScript.CommandLine.Running
import PromptScript.Proofs.Merged

/-! # State files

What a run of the command line leaves in a file, and what the next run makes of that file. It can be read just if it
does not nest deeper than the reader of JSON goes, and if every message of the history can be read from its text. -/
namespace PromptScript

/-! ## Files that are written -/

namespace FileTree

/-- A file can be written at a path, and this is its place. -/
structure Places (tree : FileTree) (path : String) (before : List String) (name : String) (above : List String) : Prop where
  parts : parts path = before ++ [name]
  relative : path.toList.head? ≠ some '/'
  leads : follow tree [] before = .ok above
  directory : isDirectory tree above = true
  down : name ≠ ".."
  file : namesDirectory path = false
  free : isDirectory tree (above ++ [name]) = false

/-- The tree with a file at a place. -/
def put (tree : FileTree) (at_ : List String) (content : String) : FileTree :=
  (tree.filter fun file => file.1 != at_) ++ [(at_, content)]

theorem write_eq_ok_iff {tree after : FileTree} {path content : String} : tree.write path content = .ok after ↔
    ∃ before name above, Places tree path before name above ∧ after = tree.put (above ++ [name]) content := by
  constructor
  · intro h
    unfold write at h
    split at h
    · cases h
    · next name r reversed =>
      have split_ : parts path = r.reverse ++ [name] := by
        rw [← List.reverse_reverse (parts path), reversed, List.reverse_cons]
      split at h
      · cases h
      · next relative =>
        cases leads : tree.follow [] r.reverse with
        | error fault => rw [leads] at h; cases h
        | ok above =>
          rw [leads] at h
          simp only [bind, Except.bind] at h
          split at h
          · cases h
          · next directory =>
            split at h
            · cases h
            · next plain =>
              simp only [Bool.or_eq_true, decide_eq_true_eq, not_or, Bool.not_eq_true] at plain
              have inside : tree.isDirectory above = true := by simpa using directory
              exact ⟨_, _, _, ⟨split_, relative, leads, inside, plain.1.1, plain.1.2, plain.2⟩, (Except.ok.inj h).symm⟩
  · rintro ⟨before, name, above, places, rfl⟩
    have reversed : (parts path).reverse = name :: before.reverse := by rw [places.parts, List.reverse_append]; rfl
    unfold write
    rw [reversed]
    dsimp only
    rw [if_neg places.relative, List.reverse_reverse, places.leads]
    simp only [bind, Except.bind, places.directory, places.file, places.free, places.down, Bool.not_true, Bool.or_false,
      decide_false, Bool.false_eq_true, if_false]
    rfl

/-- What is to be written does not decide whether it can be. -/
theorem exists_write {tree : FileTree} {path : String} (h : (tree.write path "").isOk = true) (content : String) :
    ∃ after, tree.write path content = .ok after := by
  cases written : tree.write path "" with
  | error fault => rw [written] at h; cases h
  | ok after =>
    obtain ⟨before, name, above, places, -⟩ := write_eq_ok_iff.mp written
    exact ⟨_, write_eq_ok_iff.mpr ⟨before, name, above, places, rfl⟩⟩

variable {tree : FileTree} {at_ : List String} (content : String)

/-- No place is lost where a file is put. -/
theorem exists_put {p : List String → Prop} (h : ∃ file ∈ tree, p file.1) : ∃ file ∈ tree.put at_ content, p file.1 := by
  obtain ⟨file, there, holds⟩ := h
  by_cases same : file.1 = at_
  · exact ⟨(at_, content), List.mem_append_right _ List.mem_cons_self, same ▸ holds⟩
  · refine ⟨file, List.mem_append_left _ (List.mem_filter.mpr ⟨there, ?_⟩), holds⟩
    exact bne_iff_ne.mpr same

theorem isDirectory_put {d : List String} (h : tree.isDirectory d = true) : (tree.put at_ content).isDirectory d = true := by
  simp only [isDirectory, Bool.or_eq_true, List.any_eq_true] at h ⊢
  exact h.imp_right (exists_put content (p := fun place => (d.length < place.length && place.take d.length == d) = true))

theorem isSome_content?_iff {d : List String} : (tree.content? d).isSome = true ↔ ∃ file ∈ tree, file.1 = d := by
  simp [content?]

theorem content?_put : (tree.put at_ content).content? at_ = some content := by
  have none : (tree.filter fun file => file.1 != at_).find? (fun file => file.1 == at_) = none := by
    simp
  simp [content?, put, List.find?_append, none]

/-- A path that could be followed can be followed still. -/
theorem follow_put {parts d place : List String} (h : tree.follow d parts = .ok place) :
    (tree.put at_ content).follow d parts = .ok place := by
  induction parts generalizing d with
  | nil => exact h
  | cons part r ih =>
    unfold follow at h ⊢
    by_cases directory : tree.isDirectory d = true
    · rw [if_pos directory] at h
      rw [if_pos (isDirectory_put content directory)]
      by_cases up : part = ".."
      · rw [if_pos up] at h ⊢
        split at h
        · cases h
        · next inner => exact (if_neg inner).trans (ih h)
      · rw [if_neg up] at h ⊢
        dsimp only at h ⊢
        split at h
        · next there =>
          rw [if_pos]
          · exact ih h
          · simp only [Bool.or_eq_true, isSome_content?_iff] at there ⊢
            exact there.imp (isDirectory_put content) (exists_put content (p := (· = d ++ [part])))
        · cases h
    · rw [if_neg directory] at h
      cases h

theorem follow_append (d parts more : List String) :
    tree.follow d (parts ++ more) = tree.follow d parts >>= fun e => tree.follow e more := by
  induction parts generalizing d with
  | nil => rfl
  | cons part r ih =>
    rw [List.cons_append, follow, follow]
    split
    · split
      · split
        · rfl
        · exact ih _
      · dsimp only
        split
        · exact ih _
        · rfl
    · rfl

/-- **What is written to a file is read from it.** -/
theorem read_write {after : FileTree} {path content : String} (h : tree.write path content = .ok after) :
    after.read path = .ok content := by
  obtain ⟨before, name, above, places, rfl⟩ := write_eq_ok_iff.mp h
  have nonempty : path ≠ "" := by
    rintro rfl
    have none : parts "" = [] := by decide
    exact absurd (none.symm.trans places.parts).symm (List.append_ne_nil_of_right_ne_nil _ (List.cons_ne_nil _ _))
  have there : ((tree.put (above ++ [name]) content).content? (above ++ [name])).isSome = true := by
    rw [content?_put]
    rfl
  have found : (tree.put (above ++ [name]) content).follow [] (parts path) = .ok (above ++ [name]) := by
    rw [places.parts, follow_append, follow_put content places.leads]
    show follow _ above [name] = _
    rw [follow, if_pos (isDirectory_put content places.directory), if_neg places.down]
    dsimp only
    rw [there, Bool.or_true, if_pos rfl]
    rfl
  unfold read
  rw [if_neg (not_or.mpr ⟨nonempty, places.relative⟩), found]
  simp only [content?_put, places.file]
  rfl

end FileTree

/-! ## Messages and chains that can be read -/

namespace Message

/-- A message can be read from what is written of it. -/
def Readable (m : Message) : Prop := (ofJson? m.mergedValues.toJson).isSome = true

instance (m : Message) : Decidable m.Readable := inferInstanceAs (Decidable ((ofJson? m.mergedValues.toJson).isSome = true))

/-- A message is readable where its attributes stand apart from its fields. -/
theorem Apart.readable {m : Message} (apart : m.Apart) : m.Readable := by
  have names (attributes : Attributes) : Fields.names attributes.merged = Fields.names attributes := by
    simp [Attributes.merged, Fields.names]
  have item : ∀ c ∈ m.content, c.mergedValues.Apart := by
    intro c there name inside
    have values : c.mergedValues.attributes = c.attributes.merged := by cases c <;> rfl
    have fields : c.mergedValues.fieldNames = c.fieldNames := by cases c <;> rfl
    rw [values, names] at inside
    rw [fields]
    exact apart.items c there name inside
  have whole : m.mergedValues.Apart := by
    refine ⟨fun name inside => ?_, fun c there => ?_⟩
    · exact apart.own name (by rwa [← names])
    · obtain ⟨item_, mem, rfl⟩ := List.mem_map.mp there
      exact item item_ mem
  exact Option.isSome_of_eq_some whole.reads.1

end Message

namespace Chain

/-- What is written of a chain. -/
def written (chain : Chain) : Json := chain.stored Message.toWritten

/-- A chain whose text can be read: it does not nest too deep, and all of its history is readable. -/
structure Reopens (chain : Chain) : Prop where
  shallow : chain.written.depth ≤ Json.depthLimit
  history : ∀ m ∈ chain.history, m.Readable

instance (chain : Chain) : Decidable chain.Reopens :=
  decidable_of_iff (chain.written.depth ≤ Json.depthLimit ∧ ∀ m ∈ chain.history, m.Readable)
    ⟨fun h => ⟨h.1, h.2⟩, fun h => ⟨h.shallow, h.history⟩⟩

theorem ofJson_of_unreadable {chain : Chain} (h : (chain.history.map Message.toJson).mapM Message.ofJson? = none) :
    ofJson chain.toJson = .error .invalidState := by
  unfold ofJson
  rw [read?_toJson, h]
  rfl

theorem ofJson_of_readable {chain : Chain} {history : List Message}
    (h : (chain.history.map Message.toJson).mapM Message.ofJson? = some history) :
    ofJson chain.toJson = .ok { chain.restored with history } := by
  have name : Format.ofName? chain.format.name = some chain.format := Format.ofName?_name chain.format
  unfold ofJson
  rw [read?_toJson, h]
  simp only [Option.map_some, name]
  rfl

end Chain

/-- A list is read just if every item is. -/
theorem isSome_mapM_iff {α β : Type} {read : α → Option β} (items : List α) :
    (items.mapM read).isSome = true ↔ ∀ a ∈ items, (read a).isSome = true := by
  induction items with
  | nil => simp
  | cons a r ih =>
    rw [List.forall_mem_cons, ← ih, List.mapM_cons]
    cases read a with
    | none => simp
    | some b => cases r.mapM read <;> simp

namespace CommandLine

variable {files : Files} {state : String} {chain : Chain}

/-- A state file is read as JSON, and the JSON as a chain. -/
theorem restoreChain_eq {text : String} (there : files state = .ok text) : restoreChain files state =
    match Json.parse? text with
    | none => .error .stateNotJson
    | some j => (Chain.ofJson j).mapError .chain := by
  have read : readFile files state = .ok text := by
    unfold readFile
    rw [there]
    rfl
  unfold restoreChain
  rw [read]
  rfl

/-- What is made of a file with the text of a chain: it is too deep, or something in its history cannot be read, or it
is the chain but for what JSON leaves of it. -/
theorem restoreChain_toText (there : files state = .ok chain.toText) (exact_ : ∀ n ∈ chain.written.numbers, n.Exact) :
    (¬ chain.written.depth ≤ Json.depthLimit → restoreChain files state = .error .stateNotJson) ∧
      (chain.written.depth ≤ Json.depthLimit → (∃ m ∈ chain.history, ¬ m.Readable) →
        restoreChain files state = .error (.chain .invalidState)) ∧
      (chain.Reopens → ∃ history, restoreChain files state = .ok { chain.merged.restored with history }) := by
  have text : chain.toText = chain.written.pretty := rfl
  have form : chain.written.merged = chain.merged.toJson := chain.merged_stored
  have parsed := Json.parse?_pretty exact_
  rw [← text, form] at parsed
  have every : ((chain.merged.history.map Message.toJson).mapM Message.ofJson?).isSome = true ↔
      ∀ m ∈ chain.history, m.Readable := by
    rw [isSome_mapM_iff, Chain.merged, List.map_map, List.forall_mem_map]
    rfl
  rw [restoreChain_eq there, parsed]
  refine ⟨fun deep => ?_, fun shallow unread => ?_, fun opens => ?_⟩
  · rw [if_neg deep]
  · have none : (chain.merged.history.map Message.toJson).mapM Message.ofJson? = none := by
      rw [← Option.not_isSome_iff_eq_none, every]
      simpa using unread
    rw [if_pos shallow]
    dsimp only
    rw [Chain.ofJson_of_unreadable none]
    rfl
  · obtain ⟨history, all⟩ := Option.isSome_iff_exists.mp (every.mpr opens.history)
    refine ⟨history, ?_⟩
    rw [if_pos opens.shallow]
    dsimp only
    rw [Chain.ofJson_of_readable all]
    rfl

/-- A run that makes a step of a chain and leaves that chain in a file. -/
def Leaves (tree : FileTree) (now : Int) (arguments : List String) (state : String) (chain : Chain) (after : FileTree) :
    Prop :=
  ∃ format prompt parameters response before result, parse arguments = .ok ⟨format, .chain state prompt parameters response⟩ ∧
    chainOf tree.read format state prompt parameters = .ok before ∧
    (before.step (Expr.eval (clock now)) (response.map .text) ⟨0, ()⟩).1 = .ok (chain, result) ∧
    tree.write state chain.toText = .ok after

section Runs

variable {tree after : FileTree} {now : Int} {arguments : List String} {text : String}

theorem saved_render (files : Files) (now : Int) (format : Format) (prompt : String) (parameters : Option String)
    (responses : List String) : (render files now format prompt parameters responses).saved = none := by
  unfold render
  split
  · rfl
  · dsimp only
    split <;> rfl

theorem saved_scan (files : Files) (prompt : String) (root : Option String) : (scan files prompt root).saved = none := by
  unfold scan
  split
  · rfl
  · dsimp only
    split <;> rfl

/-- Only a run that makes a step of a chain leaves a file. -/
theorem leaves_of_saved {t : Transcript} (ran : execute tree now arguments = (t, after)) (saved : t.saved = some (state, text)) :
    ∃ chain, Leaves tree now arguments state chain after ∧ text = chain.toText := by
  unfold execute at ran
  split at ran
  · next refusal refused_ =>
    obtain rfl := congrArg Prod.fst ran
    cases refusal <;> cases saved
  · next command parsed =>
    obtain ⟨format, task⟩ := command
    cases task with
    | render prompt parameters responses =>
      have none : (run tree.read now ⟨format, .render prompt parameters responses⟩).saved = none := saved_render ..
      dsimp only at ran
      rw [none] at ran
      obtain rfl := congrArg Prod.fst ran
      cases none.symm.trans saved
    | scan prompt root =>
      have none : (run tree.read now ⟨format, .scan prompt root⟩).saved = none := saved_scan ..
      dsimp only at ran
      rw [none] at ran
      obtain rfl := congrArg Prod.fst ran
      cases none.symm.trans saved
    | chain path prompt parameters response =>
      dsimp only [run] at ran
      unfold CommandLine.chain at ran
      cases start : chainOf tree.read format path prompt parameters with
      | error fault =>
        rw [start] at ran
        obtain rfl := congrArg Prod.fst ran
        cases saved
      | ok before =>
        rw [start] at ran
        dsimp only at ran
        cases made : (before.step (Expr.eval (clock now)) (response.map .text) ⟨0, ()⟩).1 with
        | error fault =>
          rw [made] at ran
          obtain rfl := congrArg Prod.fst ran
          cases saved
        | ok next =>
          obtain ⟨chain, result⟩ := next
          rw [made] at ran
          dsimp only at ran
          cases written : tree.write path chain.toText with
          | error cause =>
            rw [written] at ran
            obtain rfl := congrArg Prod.fst ran
            cases saved
          | ok left =>
            rw [written] at ran
            obtain rfl := congrArg Prod.fst ran
            obtain rfl := congrArg Prod.snd ran
            obtain ⟨rfl, rfl⟩ := Prod.mk.inj (Option.some.inj saved)
            exact ⟨chain, ⟨format, prompt, parameters, response, before, result, parsed, start, made, written⟩, rfl⟩

/-- Such a run ends well. -/
theorem execute_of_leaves (leaves : Leaves tree now arguments state chain after) :
    ∃ t, execute tree now arguments = (t, after) ∧ t.code = 0 ∧ t.saved = some (state, chain.toText) := by
  obtain ⟨format, prompt, parameters, response, before, result, parsed, start, made, written⟩ := leaves
  have ran : run tree.read now ⟨format, .chain state prompt parameters response⟩ =
      { output := result.toJson.pretty ++ "\n", saved := some (state, chain.toText) } := by
    show CommandLine.chain _ _ _ _ _ _ _ = _
    unfold CommandLine.chain
    rw [start]
    dsimp only
    rw [made]
  refine ⟨{ output := result.toJson.pretty ++ "\n", saved := some (state, chain.toText) }, ?_, rfl, rfl⟩
  unfold execute
  rw [parsed]
  dsimp only
  rw [ran]
  dsimp only
  rw [written]

theorem Leaves.read (leaves : Leaves tree now arguments state chain after) : after.read state = .ok chain.toText := by
  obtain ⟨_, _, _, _, _, _, -, -, -, written⟩ := leaves
  exact FileTree.read_write written

theorem Leaves.unique {other : Chain} (leaves : Leaves tree now arguments state chain after)
    (also : Leaves tree now arguments state other after) : chain = other := by
  obtain ⟨_, _, _, _, _, _, parsed, start, made, -⟩ := leaves
  obtain ⟨_, _, _, _, _, _, parsed', start', made', -⟩ := also
  rw [parsed] at parsed'
  cases parsed'
  rw [start] at start'
  cases start'
  rw [made] at made'
  cases made'
  rfl

theorem chainOf_of_leaves (leaves : Leaves tree now arguments state chain after) (format : Format)
    (prompt parameters : Option String) :
    chainOf after.read format state prompt parameters = restoreChain after.read state := by
  have has : Files.has after.read state = true := by
    unfold Files.has
    rw [leaves.read]
  exact if_pos has

/-- A run that has no chain to go on with leaves the files as they are. -/
theorem execute_of_fault {format : Format} {prompt parameters response : Option String} {fault : CommandFault}
    (parsed : parse arguments = .ok ⟨format, .chain state prompt parameters response⟩)
    (failed : chainOf tree.read format state prompt parameters = .error fault) :
    execute tree now arguments = (Transcript.failed fault {}, tree) := by
  have ran : run tree.read now ⟨format, .chain state prompt parameters response⟩ = Transcript.failed fault {} := by
    show CommandLine.chain _ _ _ _ _ _ _ = _
    unfold CommandLine.chain
    rw [failed]
  unfold execute
  rw [parsed]
  dsimp only
  rw [ran]
  rfl

/-- Whether a run leaves a chain that passes a test. -/
def leavesWith (tree : FileTree) (now : Int) (arguments : List String) (test : String → Chain → Bool) : Bool :=
  match parse arguments with
  | .ok ⟨format, .chain state prompt parameters response⟩ =>
    match chainOf tree.read format state prompt parameters with
    | .error _ => false
    | .ok before =>
      match (before.step (Expr.eval (clock now)) (response.map .text) ⟨0, ()⟩).1 with
      | .error _ => false
      | .ok (chain, _) => test state chain && (tree.write state "").isOk
  | _ => false

theorem exists_of_leavesWith {test : String → Chain → Bool} (h : leavesWith tree now arguments test = true) :
    ∃ state chain after, Leaves tree now arguments state chain after ∧ test state chain = true := by
  unfold leavesWith at h
  split at h
  · next format state prompt parameters response parsed =>
    split at h
    · cases h
    · next before start =>
      split at h
      · cases h
      · next chain result made =>
        obtain ⟨passes, free⟩ := Bool.and_eq_true_iff.mp h
        obtain ⟨after, written⟩ := FileTree.exists_write free chain.toText
        exact ⟨state, chain, after, ⟨format, prompt, parameters, response, before, result, parsed, start, made, written⟩, passes⟩
  · cases h

/-- **What a run makes of the file that the run before it left.** If numbers come back from their texts, the next run
goes on from the chain in the file just if that does not nest deeper than the reader goes and all of its history is
readable. -/
theorem next_run_reads {t : Transcript} (ran : execute tree now arguments = (t, after))
    (saved : t.saved = some (state, text)) : ∃ chain, Leaves tree now arguments state chain after ∧ text = chain.toText ∧
    ((∀ n ∈ chain.written.numbers, n.Exact) → ∀ (format : Format) (prompt parameters : Option String),
      (¬ chain.written.depth ≤ Json.depthLimit → chainOf after.read format state prompt parameters = .error .stateNotJson) ∧
      (chain.written.depth ≤ Json.depthLimit → (∃ m ∈ chain.history, ¬ m.Readable) →
        chainOf after.read format state prompt parameters = .error (.chain .invalidState)) ∧
      (chain.Reopens → ∃ history,
        chainOf after.read format state prompt parameters = .ok { chain.merged.restored with history })) := by
  obtain ⟨chain, leaves, rfl⟩ := leaves_of_saved ran saved
  refine ⟨chain, leaves, rfl, fun exact_ format prompt parameters => ?_⟩
  rw [chainOf_of_leaves leaves]
  exact restoreChain_toText leaves.read exact_

/-- A run over a document with a step, and the run that asks for the rest of it. -/
theorem next_run_reads_step : ∃ (t : Transcript) (after : FileTree) (chain : Chain) (text : String) (history : List Message),
    execute (FileTree.ofList [("p.txt", "<step>ask</step>\x7b\x7b !true \x7d\x7d")]) 0
        ["chain", "s.json", "--prompt", "p.txt"] = (t, after) ∧ t.saved = some ("s.json", text) ∧ text = chain.toText ∧
      (∀ n ∈ chain.written.numbers, n.Exact) ∧ chain.Reopens ∧
      chainOf after.read .canonical "s.json" none none = .ok { chain.merged.restored with history } := by
  have left : leavesWith (FileTree.ofList [("p.txt", "<step>ask</step>\x7b\x7b !true \x7d\x7d")]) 0
      ["chain", "s.json", "--prompt", "p.txt"] (fun state chain =>
        state == "s.json" && decide chain.Reopens && chain.written.numbers.all Json.isWord) = true := by
    decide +kernel
  obtain ⟨state, first, after, leaves, passes⟩ := exists_of_leavesWith left
  obtain ⟨t, ran, -, saved⟩ := execute_of_leaves leaves
  simp only [Bool.and_eq_true, beq_iff_eq, decide_eq_true_eq, List.all_eq_true] at passes
  obtain ⟨⟨rfl, opens⟩, words⟩ := passes
  have exact_ : ∀ n ∈ first.written.numbers, n.Exact := fun n there => Json.exact_of_isWord (words n there)
  obtain ⟨chain, same, text, reads⟩ := next_run_reads ran saved
  obtain rfl := same.unique leaves
  obtain ⟨history, goesOn⟩ := (reads exact_ .canonical none none).2.2 opens
  exact ⟨t, after, chain, chain.toText, history, ran, saved, rfl, exact_, opens, goesOn⟩

/-- Runs that end well and leave a file with which the next run cannot go on. In the first, 62 operators in a row nest
deeper in the file than it is read. In the second, an attribute of a message takes the place of its content. -/
theorem next_run_does_not_read :
    (∃ t after, execute (FileTree.ofList [("p.txt",
          "<step>ask</step>\x7b\x7b !!!!!!!!!!!!!!!!!!!!!!!!!!!!!!!!!!!!!!!!!!!!!!!!!!!!!!!!!!!!!!true \x7d\x7d")]) 0
        ["chain", "s.json", "--prompt", "p.txt"] = (t, after) ∧ t.code = 0 ∧
      execute after 0 ["chain", "s.json", "-r", "ok"] = (Transcript.failed .stateNotJson {}, after)) ∧
    ∃ t after, execute (FileTree.ofList [("p.txt", "<user content=\"x\">hi</user><step>go</step>")]) 0
        ["chain", "s.json", "--prompt", "p.txt"] = (t, after) ∧ t.code = 0 ∧
      execute after 0 ["chain", "s.json", "-r", "ok"] = (Transcript.failed (.chain .invalidState) {}, after) := by
  have asks : parse ["chain", "s.json", "-r", "ok"] = .ok ⟨.canonical, .chain "s.json" none none (some "ok")⟩ := by
    rfl
  constructor
  · have left : leavesWith (FileTree.ofList [("p.txt",
          "<step>ask</step>\x7b\x7b !!!!!!!!!!!!!!!!!!!!!!!!!!!!!!!!!!!!!!!!!!!!!!!!!!!!!!!!!!!!!!true \x7d\x7d")]) 0
        ["chain", "s.json", "--prompt", "p.txt"] (fun state chain =>
          state == "s.json" && decide (¬ chain.written.depth ≤ Json.depthLimit) &&
            chain.written.numbers.all Json.isWord) = true := by
      decide +kernel
    obtain ⟨state, chain, after, leaves, passes⟩ := exists_of_leavesWith left
    simp only [Bool.and_eq_true, beq_iff_eq, decide_eq_true_eq, List.all_eq_true] at passes
    obtain ⟨⟨rfl, deep⟩, words⟩ := passes
    obtain ⟨t, ran, code, -⟩ := execute_of_leaves leaves
    refine ⟨t, after, ran, code, execute_of_fault asks ?_⟩
    rw [chainOf_of_leaves leaves]
    exact (restoreChain_toText leaves.read fun n there => Json.exact_of_isWord (words n there)).1 deep
  · have left : leavesWith (FileTree.ofList [("p.txt", "<user content=\"x\">hi</user><step>go</step>")]) 0
        ["chain", "s.json", "--prompt", "p.txt"] (fun state chain =>
          state == "s.json" && decide (chain.written.depth ≤ Json.depthLimit ∧ ∃ m ∈ chain.history, ¬ m.Readable) &&
            chain.written.numbers.all Json.isWord) = true := by
      decide +kernel
    obtain ⟨state, chain, after, leaves, passes⟩ := exists_of_leavesWith left
    simp only [Bool.and_eq_true, beq_iff_eq, decide_eq_true_eq, List.all_eq_true] at passes
    obtain ⟨⟨rfl, shallow, unread⟩, words⟩ := passes
    obtain ⟨t, ran, code, -⟩ := execute_of_leaves leaves
    refine ⟨t, after, ran, code, execute_of_fault asks ?_⟩
    rw [chainOf_of_leaves leaves]
    exact (restoreChain_toText leaves.read fun n there => Json.exact_of_isWord (words n there)).2.1 shallow unread

end Runs

end CommandLine
end PromptScript
