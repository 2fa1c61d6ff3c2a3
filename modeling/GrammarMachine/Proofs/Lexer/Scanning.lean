import GrammarMachine.Proofs.Lexer.Reaching

/-!
A closed automaton runs on every source, and what it computes is what its transitions reach. Sets
hold states of the automaton, each once, so closing a set follows at most as many states as there
are; a run goes on only in front of the end of text, so the characters left bound its length; and
looking ahead leaves the cursor where it is. Closing the states that a place starts with gives all
states reached there, so a guard answers whether its continuation holds, and the match kept is the
longest one so far.
-/

namespace GrammarMachine

/-- The same place as `c`, seen through a window that starts there. -/
def Cursor.Peeked (c c' : Cursor) : Prop := c.Agrees c' ∧ c'.Faithful

namespace Scan

variable {α β : Type} {c : Cursor}

/-- The scan succeeds on a cursor, with a result and a cursor that satisfy `post`. -/
def Ends (m : Scan α) (c : Cursor) (post : α → Cursor → Prop) : Prop :=
  Yields (m c) fun r => post r.1 r.2

theorem Ends.pure {a : α} {post : α → Cursor → Prop} (holds : post a c) :
    Ends (pure a) c post :=
  Yields.pure holds

theorem Ends.bind {m : Scan α} {f : α → Scan β} {post : α → Cursor → Prop}
    {post' : β → Cursor → Prop} (first : m.Ends c post)
    (rest : ∀ a c', post a c' → (f a).Ends c' post') : (m >>= f).Ends c post' :=
  Yields.bind first fun r holds => rest r.1 r.2 holds

theorem Ends.mono {m : Scan α} {post post' : α → Cursor → Prop} (first : m.Ends c post)
    (weaker : ∀ a c', post a c' → post' a c') : m.Ends c post' :=
  Yields.mono first fun r => weaker r.1 r.2

/-- A step that does not look at the text leaves the cursor alone. -/
theorem Ends.lift {x : Except Fault α} {f : α → Scan β} {post : α → Prop}
    {post' : β → Cursor → Prop} (first : Yields x post)
    (rest : ∀ a, post a → (f a).Ends c post') : ((liftM x : Scan α) >>= f).Ends c post' := by
  obtain ⟨a, rfl, holds⟩ := first
  exact rest a holds

theorem Ends.of_yields {x : Except Fault α} {post : α → Prop} (first : Yields x post) :
    Ends (liftM x) c fun a c' => post a ∧ c' = c := by
  obtain ⟨a, rfl, holds⟩ := first
  exact .pure ⟨holds, rfl⟩

theorem ends_get (c : Cursor) : Ends get c fun now c' => now = c ∧ c' = c :=
  ⟨(c, c), rfl, rfl, rfl⟩

theorem ends_peek {c₀ : Cursor} (peeked : c₀.Peeked c) (i : Nat) :
    (peek i).Ends c fun code c' => c₀.Peeked c' ∧ code = c₀.code i := by
  obtain ⟨agrees, faithful⟩ := peeked
  refine (Cursor.yields_peek faithful i).bind fun (r, c') ⟨read, shows, agrees'⟩ => ?_
  refine .pure ⟨⟨agrees.trans agrees', ?_⟩, ?_⟩
  · unfold Cursor.Faithful
    rw [agrees'.pos]
    exact shows
  · rw [Cursor.code, ← agrees.source, ← agrees.pos]
    exact congrArg Reading.code read

end Scan

namespace Automaton

variable {a : Automaton} {c₀ c : Cursor}

/-- States of the automaton, each once. -/
structure Holds (a : Automaton) (set : StateSet) : Prop where
  nodup : set.Nodup
  inside : ∀ id ∈ set, id.toNat < a.states.size

theorem holds_nil (a : Automaton) : a.Holds [] := ⟨List.nodup_nil, by simp⟩

theorem Holds.length_le {set : StateSet} (holds : a.Holds set) : set.length ≤ a.states.size := by
  have nodup : (set.map UInt32.toNat).Nodup :=
    List.pairwise_map.2 (holds.nodup.imp fun different same => different (UInt32.toNat.inj same))
  have subset : set.map UInt32.toNat ⊆ List.range a.states.size := by
    intro n mem
    obtain ⟨id, inside, rfl⟩ := List.mem_map.1 mem
    exact List.mem_range.2 (holds.inside id inside)
  simpa using nodup.length_le_of_subset subset

theorem Holds.cons {set : StateSet} {id : UInt32} (holds : a.Holds set)
    (inside : id.toNat < a.states.size) (fresh : id ∉ set) : a.Holds (id :: set) :=
  ⟨List.nodup_cons.2 ⟨fresh, holds.nodup⟩, List.forall_mem_cons.2 ⟨inside, holds.inside⟩⟩

/-- Every transition and every continuation leads to a state of the automaton. -/
structure Linked (a : Automaton) : Prop where
  epsilon : ∀ s ∈ a.states, ∀ e ∈ s.epsilons, e.target.toNat < a.states.size
  continuation : ∀ s ∈ a.states, ∀ e ∈ s.epsilons, ∀ root, e.continuation = some root →
    root.toNat < a.states.size
  range : ∀ s ∈ a.states, ∀ r ∈ s.ranges, r.target.toNat < a.states.size

theorem Closed.linked (closed : a.Closed) : a.Linked :=
  ⟨closed.epsilon, closed.continuation, closed.range⟩

theorem mem_of_insert {set set' : StateSet} {id : UInt32} (result : a.insert id set = .ok set') :
    ∀ x, x ∈ set' ↔ x ∈ set ∨ x = id := by
  unfold insert at result
  split at result
  · cases result
    grind
  · cases result

theorem yields_insert {set : StateSet} {id : UInt32} (holds : a.Holds set)
    (inside : id.toNat < a.states.size) :
    Yields (a.insert id set) fun set' =>
      a.Holds set' ∧ set' = if set.contains id then set else id :: set := by
  unfold insert
  rw [if_pos inside]
  refine .ok ⟨?_, rfl⟩
  split
  · exact holds
  · next fresh => exact holds.cons inside (by simpa using fresh)

theorem yields_state {id : UInt32} (inside : id.toNat < a.states.size) :
    Yields (a.state id) fun s => a.states[id.toNat]? = some s :=
  yields_fetch inside

section Closing

variable {guard : UInt32 → Scan Bool} {holds : UInt32 → Prop}

/-- A guard that answers for every state whether the continuation there holds, at any window of the
place of `c₀`. -/
def Decides (a : Automaton) (c₀ : Cursor) (guard : UInt32 → Scan Bool) (holds : UInt32 → Prop) :
    Prop :=
  ∀ root, root.toNat < a.states.size → ∀ c, c₀.Peeked c →
    (guard root).Ends c fun taken c' => c₀.Peeked c' ∧ (taken = true ↔ holds root)

/-- The empty transition may be taken. -/
def Free (holds : UInt32 → Prop) (e : Epsilon) : Prop :=
  ∀ root, e.continuation = some root → holds root

/-- What adding the targets of `es` makes of the states to follow and of the set. -/
structure Added (a : Automaton) (holds : UInt32 → Prop) (es : List Epsilon) (work : List UInt32)
    (set : StateSet) (work' : List UInt32) (set' : StateSet) : Prop where
  inside : a.Holds set'
  mem : ∀ id, id ∈ set' ↔ id ∈ set ∨ ∃ e ∈ es, Free holds e ∧ e.target = id
  queued : ∀ id, id ∈ work' ↔ id ∈ work ∨ id ∈ set' ∧ id ∉ set
  length : work'.length + set.length = work.length + set'.length

variable {e : Epsilon} {es : List Epsilon} {work work' : List UInt32} {set set' : StateSet}

theorem added_nil (inside : a.Holds set) : a.Added holds [] work set work set := by
  refine ⟨inside, ?_, ?_, rfl⟩ <;> grind

/-- A target that is new joins both. -/
theorem Added.new (added : a.Added holds es (e.target :: work) (e.target :: set) work' set')
    (free : Free holds e) (fresh : e.target ∉ set) : a.Added holds (e :: es) work set work' set' := by
  refine ⟨added.inside, fun id => ?_, fun id => ?_, ?_⟩
  · rw [added.mem]
    grind
  · rw [added.queued, added.mem]
    grind
  · have := added.length
    simp only [List.length_cons] at this
    omega

/-- A target that is there already, or not to be had, changes nothing. -/
theorem Added.old (added : a.Added holds es work set work' set')
    (known : Free holds e → e.target ∈ set) : a.Added holds (e :: es) work set work' set' := by
  refine ⟨added.inside, fun id => ?_, added.queued, added.length⟩
  rw [added.mem]
  grind

theorem ends_addTargets (decides : a.Decides c₀ guard holds)
    (targets : ∀ e ∈ es, e.target.toNat < a.states.size)
    (roots : ∀ e ∈ es, ∀ root, e.continuation = some root → root.toNat < a.states.size)
    (inside : a.Holds set) (peeked : c₀.Peeked c) :
    (a.addTargets guard es work set).Ends c fun r c' => c₀.Peeked c' ∧
      a.Added holds es work set r.1 r.2 := by
  induction es generalizing work set c with
  | nil => exact .pure ⟨peeked, added_nil inside⟩
  | cons e rest ih =>
    have target := targets e List.mem_cons_self
    have targets' := (List.forall_mem_cons.1 targets).2
    have roots' := (List.forall_mem_cons.1 roots).2
    have proceed : ∀ (taken : Bool) (c' : Cursor), c₀.Peeked c' ∧ (taken = true ↔ Free holds e) →
        Scan.Ends (if taken && !set.contains e.target then do
            a.addTargets guard rest (e.target :: work) (← a.insert e.target set)
          else a.addTargets guard rest work set) c' fun r c'' => c₀.Peeked c'' ∧
            a.Added holds (e :: rest) work set r.1 r.2 := by
      rintro taken c' ⟨peeked', free⟩
      split
      · next new =>
        simp only [Bool.and_eq_true, Bool.not_eq_true', List.contains_eq_mem,
          decide_eq_false_iff_not] at new
        obtain ⟨yes, fresh⟩ := new
        refine .lift (yields_insert inside target) fun set' ⟨inside', eq⟩ => ?_
        rw [if_neg (by simpa using fresh)] at eq
        subst eq
        exact (ih targets' roots' inside' peeked').mono fun _ _ ⟨peeked'', added⟩ =>
          ⟨peeked'', added.new (free.1 yes) fresh⟩
      · next old =>
        simp only [Bool.and_eq_true, Bool.not_eq_true', List.contains_eq_mem,
          decide_eq_false_iff_not, not_and, Decidable.not_not] at old
        exact (ih targets' roots' inside peeked').mono fun _ _ ⟨peeked'', added⟩ =>
          ⟨peeked'', added.old fun yes => old (free.2 yes)⟩
    unfold addTargets
    dsimp only
    split
    · next none =>
      refine proceed true c ⟨peeked, ?_⟩
      simp [Free, none]
    · next root eq =>
      refine (decides root (roots e List.mem_cons_self root eq) c peeked).bind ?_
      rintro taken c' ⟨peeked', answer⟩
      refine proceed taken c' ⟨peeked', answer.trans ?_⟩
      simp [Free, eq]

/-- The set holds the targets of the empty transitions of state `id` that may be taken. -/
def Follows (a : Automaton) (holds : UInt32 → Prop) (set : StateSet) (id : UInt32) : Prop :=
  ∀ s, a.states[id.toNat]? = some s → ∀ e ∈ s.epsilons, Free holds e → e.target ∈ set

/-- The least set above `set` that holds all targets of its empty transitions. -/
structure Closure (a : Automaton) (holds : UInt32 → Prop) (set set' : StateSet) : Prop where
  inside : a.Holds set'
  subset : set ⊆ set'
  follows : ∀ id ∈ set', a.Follows holds set' id
  least : ∀ P : UInt32 → Prop, (∀ id ∈ set, P id) →
    (∀ id s e, P id → a.states[id.toNat]? = some s → e ∈ s.epsilons → Free holds e → P e.target) →
    ∀ id ∈ set', P id

theorem Follows.mono {id : UInt32} (follows : a.Follows holds set id) (subset : set ⊆ set') :
    a.Follows holds set' id :=
  fun s here e mem free => subset (follows s here e mem free)

section Turn

variable {id : UInt32} {s : LexState}

theorem Added.subset (added : a.Added holds es work set work' set') : set ⊆ set' :=
  fun id mem => (added.mem id).2 (.inl mem)

/-- State `id` is done after its turn, and the others as before. -/
theorem Added.follows (added : a.Added holds s.epsilons work set work' set')
    (here : a.states[id.toNat]? = some s)
    (done : ∀ x ∈ set, x ∉ id :: work → a.Follows holds set x) :
    ∀ x ∈ set', x ∉ work' → a.Follows holds set' x := by
  intro x mem finished
  rw [added.queued] at finished
  have old : x ∈ set := by grind
  by_cases same : x = id
  · intro s' at_x e among free
    rw [same, here] at at_x
    cases at_x
    exact (added.mem _).2 (.inr ⟨e, among, free, rfl⟩)
  · exact (done x old (by grind)).mono added.subset

/-- What closes the set after a turn closes the set before it. -/
theorem Added.closure {last : StateSet} (added : a.Added holds s.epsilons work set work' set')
    (here : a.states[id.toNat]? = some s) (mem : id ∈ set) (closure : a.Closure holds set' last) :
    a.Closure holds set last := by
  refine ⟨closure.inside, fun _ old => closure.subset (added.subset old), closure.follows, ?_⟩
  intro P start step
  refine closure.least P (fun x new => ?_) step
  rcases (added.mem x).1 new with old | ⟨e, among, free, rfl⟩
  · exact start x old
  · exact step id s e (start id mem) here among free

end Turn

theorem closure_self (inside : a.Holds set) (done : ∀ id ∈ set, a.Follows holds set id) :
    a.Closure holds set set :=
  ⟨inside, List.Subset.refl _, done, fun _ start _ => start⟩

theorem ends_closeFrom (linked : a.Linked) (decides : a.Decides c₀ guard holds) {n : Nat}
    (inside : a.Holds set) (subset : work ⊆ set)
    (done : ∀ id ∈ set, id ∉ work → a.Follows holds set id) (peeked : c₀.Peeked c)
    (enough : work.length + a.states.size ≤ n + set.length) :
    (a.closeFrom guard n work set).Ends c fun set' c' => c₀.Peeked c' ∧
      a.Closure holds set set' := by
  induction n generalizing work set c with
  | zero =>
    cases work with
    | nil => exact .pure ⟨peeked, closure_self inside fun id mem => done id mem (by simp)⟩
    | cons id rest =>
      have := inside.length_le
      simp only [List.length_cons] at enough
      omega
  | succ n ih =>
    cases work with
    | nil => exact .pure ⟨peeked, closure_self inside fun id mem => done id mem (by simp)⟩
    | cons id rest =>
      have mem := subset List.mem_cons_self
      unfold closeFrom
      refine .lift (yields_state (inside.inside id mem)) fun s here => ?_
      have known := Array.mem_of_getElem? here
      refine (ends_addTargets decides (linked.epsilon s known) (linked.continuation s known) inside
        peeked).bind ?_
      rintro ⟨work', set'⟩ c' ⟨peeked', added⟩
      dsimp only at added
      have subset' : work' ⊆ set' := by
        intro x later
        rcases (added.queued x).1 later with old | new
        · exact added.subset (subset (List.mem_cons_of_mem id old))
        · exact new.1
      have length := added.length
      simp only [List.length_cons] at enough
      refine (ih added.inside subset' (added.follows here done) peeked' (by omega)).mono ?_
      exact fun _ _ ⟨peeked'', closure⟩ => ⟨peeked'', added.closure here mem closure⟩

theorem ends_close (linked : a.Linked) (decides : a.Decides c₀ guard holds)
    (inside : a.Holds set) (peeked : c₀.Peeked c) :
    (a.close guard set).Ends c fun set' c' => c₀.Peeked c' ∧ a.Closure holds set set' :=
  ends_closeFrom linked decides inside (List.Subset.refl _) (fun _ mem other => absurd mem other)
    peeked (by omega)

end Closing

/-- The states reached on a code are those that the tables name. -/
theorem mem_of_advance {set next : StateSet} {code : Int32}
    (result : a.advance set code = .ok next) : ∀ target, target ∈ next ↔
      ∃ id ∈ set, ∃ s, a.states[id.toNat]? = some s ∧ s.step? code = some target := by
  refine foldlM_eq_ok (P := fun (done : StateSet) next => ∀ target, target ∈ next ↔
    ∃ id ∈ done, ∃ s, a.states[id.toNat]? = some s ∧ s.step? code = some target)
    (by simp) ?_ result
  intro done id next next' reached turned target
  obtain ⟨s, state, turned⟩ := bind_eq_ok_iff.1 turned
  have here := fetch_eq_ok_iff.1 state
  cases step : s.step? code with
  | none =>
    rw [step] at turned
    cases turned
    simp [reached, or_and_right, exists_or, here, step]
  | some q =>
    rw [step] at turned
    rw [mem_of_insert turned, reached]
    simp [or_and_right, exists_or, here, step, eq_comm]

theorem holds_of_advance (linked : a.Linked) {set : StateSet} (inside : a.Holds set)
    (code : Int32) : Yields (a.advance set code) a.Holds := by
  refine yields_foldlM (P := fun _ next => a.Holds next) (holds_nil a)
    fun _ id next mem holds => ?_
  obtain ⟨s, state, here⟩ := yields_state (inside.inside id mem)
  refine .bind_ok state ?_
  cases step : s.step? code with
  | none => exact .pure holds
  | some target =>
    obtain ⟨r, among, _, _, rfl⟩ := LexState.moves_of_step? step
    exact (yields_insert holds (linked.range s (Array.mem_of_getElem? here) r among)).mono
      fun _ holds => holds.1

/-- The states that a set leads to on one code. -/
theorem yields_advance (closed : a.Closed) {set : StateSet} (inside : a.Holds set) (code : Int32) :
    Yields (a.advance set code) fun next => a.Holds next ∧ ∀ target, target ∈ next ↔
      ∃ id ∈ set, ∃ s, a.states[id.toNat]? = some s ∧ s.Moves code target := by
  obtain ⟨next, result, holds⟩ := holds_of_advance closed.linked inside code
  refine .of_eq result ⟨holds, fun target => ?_⟩
  rw [mem_of_advance result]
  refine exists_congr fun id => and_congr_right fun _ => exists_congr fun s => ?_
  exact and_congr_right fun here => closed.found s (Array.mem_of_getElem? here) code target

/-- A state of the set recognizes `r`. -/
def Finds (a : Automaton) (set : StateSet) (r : Recognition) : Prop :=
  ∃ id ∈ set, ∃ s, a.states[id.toNat]? = some s ∧ s.recognized = r

theorem mem_of_recognitions {set : StateSet} {rs : List Recognition}
    (result : a.recognitions set = .ok rs) (r : Recognition) : r ∈ rs ↔ a.Finds set r := by
  induction set generalizing rs with
  | nil =>
    cases result
    simp [Finds]
  | cons id rest ih =>
    obtain ⟨first, others, shown, tail, rfl⟩ := mapM_cons_eq_ok_iff.1 result
    obtain ⟨s, found, same⟩ := bind_eq_ok_iff.1 shown
    cases same
    have here := fetch_eq_ok_iff.1 found
    rw [List.mem_cons, ih tail]
    simp [Finds, here, eq_comm]

theorem yields_recognitions {set : StateSet} (inside : ∀ id ∈ set, id.toNat < a.states.size) :
    Yields (a.recognitions set) fun rs => ∀ r, r ∈ rs ↔ a.Finds set r := by
  have each : ∀ id ∈ set, ∃ r,
      (return (← a.state id).recognized : Except Fault Recognition) = .ok r := by
    intro id mem
    obtain ⟨s, state, _⟩ := yields_state (inside id mem)
    exact ⟨s.recognized, bind_eq_ok_iff.2 ⟨s, state, rfl⟩⟩
  obtain ⟨rs, result⟩ := exists_mapM_eq_ok each
  exact .of_eq result (mem_of_recognitions result)

theorem yields_accepts {set : StateSet} (inside : a.Holds set) :
    Yields (a.accepts set) fun accepted => accepted = true ↔ a.Finds set .followAccept :=
  (yields_recognitions inside.inside).bind fun rs known => .pure <| by
    rw [List.contains_iff_mem, known]

theorem foremost_eq_none {rs : List Recognition} (found : foremost rs = none) :
    ∀ r ∈ rs, r.priority? = none := by
  induction rs with
  | nil => simp
  | cons first rest ih =>
    unfold foremost at found
    split at found
    · next here => exact List.forall_mem_cons.2 ⟨here, ih found⟩
    · cases found
    · split at found
      · split at found <;> cases found
      · cases found

/-- The foremost of some recognitions is one of them, and none of them comes before it. -/
theorem foremost_eq_some {rs : List Recognition} {r : Recognition} (found : foremost rs = some r) :
    r ∈ rs ∧ ∃ p, r.priority? = some p ∧ ∀ r' ∈ rs, ∀ p', r'.priority? = some p' → p ≤ p' := by
  induction rs generalizing r with
  | nil => cases found
  | cons first rest ih =>
    unfold foremost at found
    split at found
    · next here =>
      obtain ⟨mem, p, priority, least⟩ := ih found
      refine ⟨List.mem_cons_of_mem _ mem, p, priority, List.forall_mem_cons.2 ⟨?_, least⟩⟩
      simp [here]
    · next p here nothing =>
      cases found
      have others := foremost_eq_none nothing
      refine ⟨List.mem_cons_self, p, here, List.forall_mem_cons.2 ⟨by simp [here], ?_⟩⟩
      intro r' mem
      simp [others r' mem]
    · next p other here later =>
      obtain ⟨mem, q, priority, least⟩ := ih later
      simp only [priority] at found
      split at found
      · next le =>
        cases found
        refine ⟨List.mem_cons_self, p, here, List.forall_mem_cons.2 ⟨by simp [here], ?_⟩⟩
        exact fun r' mem' p' prior => Nat.le_trans le (least r' mem' p' prior)
      · next lt =>
        cases found
        refine ⟨List.mem_cons_of_mem _ mem, q, priority, List.forall_mem_cons.2 ⟨?_, least⟩⟩
        intro p' prior
        cases here.symm.trans prior
        omega

/-- What a set of states ends in. -/
def EndsIn (a : Automaton) (set : StateSet) : Option Recognition → Prop
  | some r => a.Finds set r ∧ ∃ p, r.priority? = some p ∧
      ∀ r' p', a.Finds set r' → r'.priority? = some p' → p ≤ p'
  | none => ∀ r, a.Finds set r → r.priority? = none

theorem yields_best {set : StateSet} (inside : a.Holds set) :
    Yields (a.best set) (a.EndsIn set) := by
  refine (yields_recognitions inside.inside).bind fun rs known => .pure ?_
  cases found : foremost rs with
  | none => exact fun r finds => foremost_eq_none found r ((known r).2 finds)
  | some r =>
    obtain ⟨mem, p, priority, least⟩ := foremost_eq_some found
    exact ⟨(known r).1 mem, p, priority, fun r' p' finds => least r' ((known r').2 finds) p'⟩

/-- A loop that goes on behind place `i` has a character left for it. -/
theorem lt_remaining {i : Nat} (inside : isEndCode (c₀.code i) = false) : i < c₀.remaining := by
  have bound := Source.add_lt_stop inside
  unfold Cursor.remaining
  omega

section Runs

variable {holds : Nat → UInt32 → Prop} {guard : Nat → UInt32 → Scan Bool} {k i : Nat}
  {root : UInt32} {set next : StateSet}

/-- The states that place `i` starts with, before empty transitions are followed. -/
structure Seeds (a : Automaton) (code : Nat → Int32) (holds : Nat → UInt32 → Prop) (k : Nat)
    (root : UInt32) (i : Nat) (set : StateSet) : Prop where
  inside : a.Holds set
  reached : ∀ id ∈ set, a.Reaches code holds k root i id
  start : i = k → root ∈ set
  range : ∀ {j : Nat} {id target : UInt32} {s : LexState}, i = j + 1 →
    a.Reaches code holds k root j id → (∀ m, k ≤ m → m < j → isEndCode (code m) = false) →
    a.states[id.toNat]? = some s → s.Moves (code j) target → target ∈ set

/-- All states reached at place `i`. -/
structure Covers (a : Automaton) (code : Nat → Int32) (holds : Nat → UInt32 → Prop) (k : Nat)
    (root : UInt32) (i : Nat) (set : StateSet) : Prop where
  inside : a.Holds set
  mem : ∀ id, id ∈ set ↔ a.Reaches code holds k root i id

variable {code : Nat → Int32}

theorem Seeds.covers (seeds : a.Seeds code holds k root i set)
    (closure : a.Closure (holds i) set next) : a.Covers code holds k root i next := by
  refine ⟨closure.inside, fun id => ⟨?_, fun reached => ?_⟩⟩
  · refine closure.least _ seeds.reached (fun id s e reached here mem free => ?_) id
    exact .epsilon reached here mem free
  · -- Every run to this place ends in a seed or in an empty transition.
    induction reached with
    | root => exact closure.subset (seeds.start rfl)
    | range reached before here moves =>
      exact closure.subset (seeds.range rfl reached before here moves)
    | epsilon _ here mem free ih => exact closure.follows _ (ih seeds closure) _ here _ mem free

theorem seeds_root (inside : a.Holds [root]) : a.Seeds code holds k root k [root] where
  inside := inside
  reached := by simp [Reaches.root]
  start _ := List.mem_cons_self
  range same reached := by
    have := reached.le
    omega

/-- The next place starts with what the code here leads to. -/
theorem Covers.seeds (covers : a.Covers code holds k root i set) (inside : a.Holds next)
    (start : k ≤ i) (before : ∀ m, k ≤ m → m < i → isEndCode (code m) = false)
    (mem : ∀ target, target ∈ next ↔
      ∃ id ∈ set, ∃ s, a.states[id.toNat]? = some s ∧ s.Moves (code i) target) :
    a.Seeds code holds k root (i + 1) next := by
  refine ⟨inside, ?_, by omega, ?_⟩
  · intro target new
    obtain ⟨id, old, s, here, moves⟩ := (mem target).1 new
    exact .range ((covers.mem id).1 old) before here moves
  · intro j id target s same reached _ here moves
    obtain rfl : i = j := by omega
    exact (mem target).2 ⟨id, (covers.mem id).2 reached, s, here, moves⟩

theorem Covers.finds (covers : a.Covers code holds k root i set) (r : Recognition) :
    a.Finds set r ↔ a.RecognizesAt code holds k root i r := by
  simp only [Finds, RecognizesAt, covers.mem]
  grind

theorem Covers.unreached (covers : a.Covers code holds k root i set) (empty : set.isEmpty = true)
    (id : UInt32) : ¬a.Reaches code holds k root i id := by
  rw [← covers.mem, List.isEmpty_iff.1 empty]
  exact List.not_mem_nil

/-- Nothing ended the text in front of the next place. -/
theorem before_succ (before : ∀ m, k ≤ m → m < i → isEndCode (code m) = false)
    (going : isEndCode (code i) = false) :
    ∀ m, k ≤ m → m < i + 1 → isEndCode (code m) = false := by
  intro m le lt
  rcases Nat.lt_succ_iff_lt_or_eq.1 lt with earlier | rfl
  · exact before m le earlier
  · exact going

/-- A continuation is followed until it ends, or there is no more to follow. -/
theorem ends_followFrom (closed : a.Closed) (decides : ∀ i, a.Decides c₀ (guard i) (holds i))
    {n : Nat} (seeds : a.Seeds c₀.code holds k root i set) (start : k ≤ i)
    (before : ∀ m, k ≤ m → m < i → isEndCode (c₀.code m) = false)
    (none : ∀ m, m < i → ¬a.RecognizesAt c₀.code holds k root m .followAccept)
    (peeked : c₀.Peeked c) (some_turn : 0 < n) (enough : c₀.remaining < n + i) :
    (a.followFrom guard n i set).Ends c fun accepted c' => c₀.Peeked c' ∧
      (accepted = true ↔ ∃ m, a.RecognizesAt c₀.code holds k root m .followAccept) := by
  induction n generalizing i set c with
  | zero => omega
  | succ n ih =>
    unfold followFrom
    refine (ends_close closed.linked (decides i) seeds.inside peeked).bind ?_
    rintro set c ⟨peeked, closure⟩
    have covers := seeds.covers closure
    refine .lift (yields_accepts covers.inside) fun accepted answer => ?_
    rw [covers.finds] at answer
    split
    · next yes => exact .pure ⟨peeked, by simpa using ⟨i, answer.1 yes⟩⟩
    · next no =>
      have none : ∀ m, m < i + 1 → ¬a.RecognizesAt c₀.code holds k root m .followAccept := by
        intro m lt
        rcases Nat.lt_succ_iff_lt_or_eq.1 lt with earlier | rfl
        · exact none m earlier
        · exact fun here => no (answer.2 here)
      split
      · next empty =>
        refine .pure ⟨peeked, ?_⟩
        simp only [Bool.false_eq_true, false_iff, not_exists]
        intro m
        rcases Nat.lt_or_ge m (i + 1) with earlier | later
        · exact none m earlier
        · exact not_recognizesAt_of_unreached start (covers.unreached empty) (by omega)
      · refine (Scan.ends_peek peeked i).bind fun code c ⟨peeked, read⟩ => ?_
        subst read
        refine .lift (yields_advance closed covers.inside _) fun next ⟨inside, mem⟩ => ?_
        have seeds := covers.seeds inside start before mem
        split
        · next ended =>
          refine (ends_close closed.linked (decides (i + 1)) seeds.inside peeked).bind ?_
          rintro next c ⟨peeked, closure⟩
          have covers := seeds.covers closure
          refine (Scan.Ends.of_yields (yields_accepts covers.inside)).mono ?_
          rintro accepted _ ⟨answer, rfl⟩
          refine ⟨peeked, answer.trans ?_⟩
          rw [covers.finds]
          refine ⟨fun here => ⟨i + 1, here⟩, fun ⟨m, here⟩ => ?_⟩
          rcases Nat.lt_trichotomy m (i + 1) with earlier | rfl | later
          · exact absurd here (none m earlier)
          · exact here
          · exact absurd here (not_recognizesAt_of_end start ended later)
        · next going =>
          have going : isEndCode (c₀.code i) = false := by simpa using going
          have left := lt_remaining going
          exact ih seeds (by omega) (before_succ before going) none peeked (by omega) (by omega)

theorem decides_follows (closed : a.Closed) (c₀ : Cursor) (level i : Nat) :
    a.Decides c₀ (a.follows level i) (a.Continues c₀.code level i) := by
  induction level generalizing i with
  | zero => exact fun _ _ _ peeked => .pure ⟨peeked, by simp [Continues]⟩
  | succ level ih =>
    intro root inside c peeked
    unfold follows
    refine .lift (yields_insert (holds_nil a) inside) fun set ⟨holds, eq⟩ => ?_
    rw [if_neg (by simp)] at eq
    subst eq
    refine (Scan.ends_get c).bind ?_
    rintro now c ⟨rfl, rfl⟩
    have same : c.remaining = c₀.remaining := by
      unfold Cursor.remaining
      rw [peeked.1.source, peeked.1.pos]
    refine ends_followFrom closed ih (seeds_root holds) (Nat.le_refl i) (by omega) ?_ peeked
      (by omega) (by omega)
    rintro m earlier ⟨id, s, reached, _⟩
    have := reached.le
    omega

end Runs

section Longest

variable {code : Nat → Int32} {root : UInt32} {i : Nat} {last : Option Match} {set : StateSet}

/-- The match kept in front of place `i` is the longest one up to there. -/
structure Keeps (a : Automaton) (code : Nat → Int32) (root : UInt32) (i : Nat)
    (last : Option Match) : Prop where
  found : ∀ m, last = some m → m.length < i ∧ a.Wins code root m.length m.recognized ∧
    ∀ n r, n < i → a.Recognizes code root n r → n ≤ m.length
  missing : last = none → ∀ n r, n < i → ¬a.Recognizes code root n r

theorem keeps_zero (a : Automaton) (code : Nat → Int32) (root : UInt32) :
    a.Keeps code root 0 none :=
  ⟨nofun, fun _ _ _ lt => absurd lt (Nat.not_lt_zero _)⟩

theorem wins_of_endsIn
    (covers : a.Covers code (a.Continues code a.maxDepth.toNat) 0 root i set) {r : Recognition}
    (ends : a.EndsIn set (some r)) : a.Wins code root i r := by
  obtain ⟨finds, p, priority, least⟩ := ends
  refine ⟨⟨(covers.finds r).1 finds, p, priority⟩, ?_⟩
  intro r' p' q' other first second
  cases priority.symm.trans first
  exact least r' q' ((covers.finds r').2 other.1) second

/-- A match at place `i` replaces the one kept. -/
theorem Keeps.update (keeps : a.Keeps code root i last)
    (covers : a.Covers code (a.Continues code a.maxDepth.toNat) 0 root i set)
    (found : Option Recognition) : a.EndsIn set found →
      a.Keeps code root (i + 1) (match found with
        | some recognized => some ⟨recognized, i⟩
        | none => last) := by
  intro ends
  cases found with
  | some r =>
    refine ⟨?_, nofun⟩
    rintro m ⟨⟩
    exact ⟨Nat.lt_succ_self i, wins_of_endsIn covers ends, fun n r lt _ => Nat.le_of_lt_succ lt⟩
  | none =>
    have nothing : ∀ r, ¬a.Recognizes code root i r := by
      rintro r ⟨here, p, priority⟩
      rw [ends r ((covers.finds r).2 here)] at priority
      cases priority
    refine ⟨fun m same => ?_, fun same n r lt => ?_⟩
    · obtain ⟨lt, wins, longest⟩ := keeps.found m same
      refine ⟨Nat.lt_succ_of_lt lt, wins, fun n r bound here => ?_⟩
      rcases Nat.lt_succ_iff_lt_or_eq.1 bound with earlier | rfl
      · exact longest n r earlier here
      · exact absurd here (nothing r)
    · rcases Nat.lt_succ_iff_lt_or_eq.1 lt with earlier | rfl
      · exact keeps.missing same n r earlier
      · exact nothing r

/-- What a scan answers: the longest match, if there is one. -/
structure Answers (a : Automaton) (code : Nat → Int32) (root : UInt32) (answer : Option Match) :
    Prop where
  found : ∀ m, answer = some m ↔ a.Munches code root m
  missing : answer = none ↔ ∀ n r, ¬a.Recognizes code root n r

/-- The match kept is the answer where nothing is recognized further on. -/
theorem Keeps.answers (keeps : a.Keeps code root i last)
    (beyond : ∀ n r, i ≤ n → ¬a.Recognizes code root n r) : a.Answers code root last := by
  have inside : ∀ n r, a.Recognizes code root n r → n < i := by
    intro n r here
    exact Nat.lt_of_not_le fun outside => beyond n r outside here
  have munches : ∀ m, last = some m → a.Munches code root m := by
    intro m same
    obtain ⟨_, wins, longest⟩ := keeps.found m same
    exact ⟨wins, fun n r here => longest n r (inside n r here) here⟩
  cases last with
  | none =>
    have nothing : ∀ n r, ¬a.Recognizes code root n r := fun n r here =>
      keeps.missing rfl n r (inside n r here) here
    refine ⟨fun m => ⟨nofun, fun munch => ?_⟩, by simpa using nothing⟩
    exact absurd munch.1.1 (nothing _ _)
  | some m' =>
    have munch := munches m' rfl
    refine ⟨fun m => ⟨munches m, fun other => ?_⟩, ⟨nofun, fun nothing => ?_⟩⟩
    · rw [munch.unique other]
    · exact absurd munch.1.1 (nothing _ _)

/-- What is recognized is recognized by a state of the automaton. -/
theorem Answers.known {answer : Option Match} (answers : a.Answers code root answer) {m : Match}
    (same : answer = some m) : ∃ s ∈ a.states, s.recognized = m.recognized := by
  obtain ⟨⟨⟨⟨id, s, _, here, recognized⟩, _⟩, _⟩, _⟩ := (answers.found m).1 same
  exact ⟨s, Array.mem_of_getElem? here, recognized⟩

theorem Answers.unique {answer answer' : Option Match} (first : a.Answers code root answer)
    (second : a.Answers code root answer') : answer = answer' := by
  cases answer with
  | none => exact (second.missing.2 (first.missing.1 rfl)).symm
  | some m => exact ((second.found m).2 ((first.found m).1 rfl)).symm

theorem ends_longestFrom (closed : a.Closed) {n : Nat}
    (seeds : a.Seeds c₀.code (a.Continues c₀.code a.maxDepth.toNat) 0 root i set)
    (before : ∀ m, 0 ≤ m → m < i → isEndCode (c₀.code m) = false)
    (keeps : a.Keeps c₀.code root i last) (peeked : c₀.Peeked c) (some_turn : 0 < n)
    (enough : c₀.remaining < n + i) :
    (a.longestFrom n i last set).Ends c fun found c' => c₀.Peeked c' ∧
      a.Answers c₀.code root found := by
  induction n generalizing i last set c with
  | zero => omega
  | succ n ih =>
    have decides := decides_follows closed c₀ a.maxDepth.toNat
    unfold longestFrom
    refine (ends_close closed.linked (decides i) seeds.inside peeked).bind ?_
    rintro set c ⟨peeked, closure⟩
    have covers := seeds.covers closure
    refine .lift (yields_best covers.inside) fun found ends => ?_
    have keeps := keeps.update covers found ends
    dsimp only
    split
    · next empty =>
      refine .pure ⟨peeked, keeps.answers fun m r later here => ?_⟩
      exact not_recognizesAt_of_unreached (Nat.zero_le i) (covers.unreached empty) (by omega) here.1
    · refine (Scan.ends_peek peeked i).bind fun code c ⟨peeked, read⟩ => ?_
      subst read
      refine .lift (yields_advance closed covers.inside _) fun next ⟨inside, mem⟩ => ?_
      have seeds := covers.seeds inside (Nat.zero_le i) before mem
      split
      · next ended =>
        refine (ends_close closed.linked (decides (i + 1)) seeds.inside peeked).bind ?_
        rintro next c ⟨peeked, closure⟩
        have covers := seeds.covers closure
        refine .lift (yields_best covers.inside) fun found ends => ?_
        refine .pure ⟨peeked, (keeps.update covers found ends).answers fun m r later here => ?_⟩
        exact not_recognizesAt_of_end (Nat.zero_le i) ended (by omega) here.1
      · next going =>
        have going : isEndCode (c₀.code i) = false := by simpa using going
        have left := lt_remaining going
        exact ih seeds (before_succ before going) keeps peeked (by omega) (by omega)

/-- The search for the longest match finds it, at every place of every source. -/
theorem ends_longestMatch (closed : a.Closed) (inside : root.toNat < a.states.size)
    (faithful : c.Faithful) :
    (a.longestMatch root).Ends c fun found c' => c.Peeked c' ∧ a.Answers c.code root found := by
  unfold longestMatch
  refine .lift (yields_insert (holds_nil a) inside) fun set ⟨holds, eq⟩ => ?_
  rw [if_neg (by simp)] at eq
  subst eq
  refine (Scan.ends_get c).bind ?_
  rintro now c' ⟨rfl, rfl⟩
  exact ends_longestFrom closed (seeds_root holds) (by omega) (keeps_zero a _ root)
    ⟨.refl _, faithful⟩ (by omega) (by omega)

end Longest

end Automaton

end GrammarMachine
