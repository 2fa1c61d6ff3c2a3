import GrammarMachine.Proofs.Evaluation.Grounding
import GrammarMachine.Proofs.Evaluation.Ledger
import GrammarMachine.Proofs.Evaluation.Records
import GrammarMachine.Proofs.Evaluation.Tracking

/-!
A graph that fulfils a ledger. Every node is what its entry says or what became of it, an alias has
the solutions of what it stands for, and what a node shows is its solution. With a host that does
nothing but compute, evaluation keeps this up, in whatever order it goes about it. When nothing is
left to attempt, all solutions are shown: an attribute that shows nothing has none.
-/

namespace GrammarMachine

/-- In the states of `I`, which it does not leave, the host gives no commands, and answers by
`meaning` from the trees of the parameters. -/
structure Host.Functional {σ V : Type} (h : Host σ V) (I : σ → Prop) (meaning : Meaning V) :
    Prop where
  commands : ∀ call control s, I s → (h.execute call control s).1.commands = []
  execute : ∀ call control s, I s → I (h.execute call control s).2
  result : ∀ call control s vs, I s → call.params.mapM call.graph.snapshot = .ok vs →
    (h.execute call control s).1.result = meaning call.function call.pos vs
  silent : ∀ report control s, I s → (h.error report control s).1 = []
  error : ∀ report control s, I s → I (h.error report control s).2

namespace Ledger

variable {V : Type} {meaning : Meaning V} {D D' : Ledger} {p : Option Nat} {id : Nat}
  {v : Snapshot V}

/-- The node that stands for a parameter: the attribute itself, or a null for one that does not
exist. -/
def Stands (D : Ledger) : Option Nat → Nat → Prop
  | some n, id => id = n
  | none, id => D[id]? = some .null

theorem Stands.extends (stands : D.Stands p id) (more : D.Extends D') : D'.Stands p id := by
  cases p with
  | none => exact more stands nofun
  | some n => exact stands

theorem Stands.solves (stands : D.Stands p id) (solved : D.Solves meaning (some id) v) :
    D.Solves meaning p v := by
  cases p with
  | none =>
    have here : D[id]? = some .null := stands
    cases solved with
    | text there => cases here.symm.trans there
    | null => exact .missing
    | copy there => cases here.symm.trans there
    | apply there => cases here.symm.trans there
  | some n =>
    cases stands
    exact solved

/-- The node that joins the graph with an entry. -/
def Entry.node : Entry → Node V
  | text content pos error => .text content pos error
  | null => .null
  | declared o _ => .pending ⟨none, [], o⟩

theorem Entry.isLink_node (entry : Entry) : (entry.node (V := V)).isLink = false := by
  cases entry <;> rfl

end Ledger

namespace Graph

variable {V : Type} {g : Grammar} {meaning : Meaning V} {D D' : Ledger} {graph graph' : Graph V}
  {n : Nat} {entry : Ledger.Entry} {p : Option Nat} {v : Snapshot V}

/-- What an action sees of a parameter. -/
def Presents (graph : Graph V) : Option Nat → Snapshot V → Prop
  | some n, v => graph.Shows n v
  | none, v => v = .null

theorem Presents.grows (presented : graph.Presents p v) (grows : graph.Grows graph')
    (linked : graph'.Linked) : graph'.Presents p v := by
  cases p with
  | none => exact presented
  | some n => exact Shows.grows presented grows linked

theorem Presents.unique {v' : Snapshot V} (first : graph.Presents p v)
    (second : graph.Presents p v') : v = v' := by
  cases p with
  | none => exact first.trans second.symm
  | some n => exact Shows.unique first second

theorem forall₂_presents_unique {ps : List (Option Nat)} {vs vs' : List (Snapshot V)}
    (first : List.Forall₂ graph.Presents ps vs) (second : List.Forall₂ graph.Presents ps vs') :
    vs = vs' := by
  refine List.right_unique_forall₂' (fun p v v' seen seen' => ?_) first second
  exact seen.unique seen'

/-- The node is what its entry says, or what became of it. -/
inductive Keeps (g : Grammar) (meaning : Meaning V) (D : Ledger) (graph : Graph V) (n : Nat) :
    Ledger.Entry → Prop
  | text {content : String} {pos : Nat} {error : Bool}
      (here : graph.nodes[n]? = some (.text content pos error)) :
      Keeps g meaning D graph n (.text content pos error)
  | null (here : graph.nodes[n]? = some .null) : Keeps g meaning D graph n .null
  | undefined {o : Origin} (here : graph.PendingAs n none o) :
      Keeps g meaning D graph n (.declared o none)
  | waiting {o : Origin} {b : Binding} {a : SemanticAction} {ps : List (Option Nat)}
      (here : graph.PendingAs n (some b) o) (action : g.action? b = some a)
      (params : List.Forall₂ D.Stands ps b.params) :
      Keeps g meaning D graph n (.declared o (some ⟨a, ps⟩))
  | copied {o : Origin} {a : SemanticAction} {p : Option Nat} {id source rep : Nat}
      (copy : a.isCopy = true) (stands : D.Stands p id)
      (here : graph.nodes[n]? = some (.link source)) (target : graph.representative n = .ok rep)
      (param : graph.representative id = .ok rep) :
      Keeps g meaning D graph n (.declared o (some ⟨a, [p]⟩))
  | computed {o : Origin} {a : SemanticAction} {ps : List (Option Nat)} {vs : List (Snapshot V)}
      {node : Node V} (computed : a.isCopy = false) (params : List.Forall₂ graph.Presents ps vs)
      (here : graph.nodes[n]? = some node) (settled : node.isPending = false)
      (plain : node.isLink = false) (shown : graph.Shows n (a.apply meaning o.pos vs)) :
      Keeps g meaning D graph n (.declared o (some ⟨a, ps⟩))

/-- An entry that was kept is kept still, if a pending attribute is the same. -/
theorem Keeps.grows (keeps : Keeps g meaning D graph n entry) (more : D.Extends D')
    (grows : graph.Grows graph') (linked : graph'.Linked)
    (pending : ∀ {binding o}, graph.PendingAs n binding o → graph'.PendingAs n binding o) :
    Keeps g meaning D' graph' n entry := by
  cases keeps with
  | text here => exact .text (grows.kept here rfl)
  | null here => exact .null (grows.kept here rfl)
  | undefined here => exact .undefined (pending here)
  | waiting here action params =>
    exact .waiting (pending here) action (params.imp fun _ _ stands => stands.extends more)
  | copied copy stands here target param =>
    -- Both walks lead on together from where they met.
    obtain ⟨_, there, _⟩ := plain_of_follow target
    have inside := Nat.lt_of_lt_of_le (lt_size there) grows.size
    obtain ⟨r, rest, _⟩ := yields_representative linked inside
    have size := grows.size
    have target_inside := lt_size_of_representative target
    have param_inside := lt_size_of_representative param
    exact .copied copy (stands.extends more) (grows.kept here rfl)
      (representative_through grows linked target rest (by omega))
      (representative_through grows linked param rest (by omega))
  | computed computed params here settled plain shown =>
    exact .computed computed (params.imp fun _ _ seen => seen.grows grows linked)
      (grows.kept here settled) settled plain (shown.grows grows linked)

/-- A graph that solves a ledger, as far as it has come. -/
structure Fulfils (g : Grammar) (meaning : Meaning V) (D : Ledger) (graph : Graph V) : Prop where
  size : D.length = graph.size
  keeps : ∀ {n : Nat} {entry : Ledger.Entry}, D[n]? = some entry → Keeps g meaning D graph n entry
  /-- Whatever else is entered, an alias has the solutions of what it stands for. -/
  aliases : ∀ {D' : Ledger} {n rep : Nat} {v : Snapshot V}, D.Extends D' →
    graph.representative n = .ok rep → D'.Solves meaning (some rep) v →
    D'.Solves meaning (some n) v
  shown : ∀ {n : Nat} {v : Snapshot V}, graph.Shows n v → D.Solves meaning (some n) v

/-- What has to hold of a node when it is settled. -/
structure Warranted (meaning : Meaning V) (D : Ledger) (graph : Graph V) (n : Nat) : Prop where
  aliases : ∀ {D' : Ledger} {rep : Nat} {v : Snapshot V}, D.Extends D' →
    graph.representative n = .ok rep → D'.Solves meaning (some rep) v →
    D'.Solves meaning (some n) v
  shown : ∀ {v : Snapshot V}, graph.representative n = .ok n → graph.Shows n v →
    D.Solves meaning (some n) v

theorem Shows.of_grows (later : graph'.Shows n v) (known : graph.Known n)
    (grounded : graph.Grounded) (grows : graph.Grows graph') (linked : graph'.Linked) :
    graph.Shows n v := by
  obtain ⟨v₀, shown⟩ := exists_shows grounded known
  rwa [later.unique (shown.grows grows linked)]

/-- A step of the graph and the ledger: each entry is kept, and what is settled now is warranted. -/
theorem Fulfils.step (fulfils : Fulfils g meaning D graph) (grounded : graph.Grounded)
    (linked : graph.Linked) (grows : graph.Grows graph') (linked' : graph'.Linked)
    (more : D.Extends D') (size : D'.length = graph'.size)
    (keeps : ∀ {n entry}, D'[n]? = some entry → Keeps g meaning D' graph' n entry)
    (settled : ∀ {n}, n < graph'.size → graph.pendingAt n = true ∨ graph.size ≤ n →
      graph'.pendingAt n = false → Warranted meaning D' graph' n) :
    Fulfils g meaning D' graph' := by
  -- Where a walk ended before, it goes on only through what is settled now.
  have ends : ∀ {E : Ledger} {m rep v}, D'.Extends E →
      graph.representative m = .ok m ∨ graph.size ≤ m → graph'.representative m = .ok rep →
      E.Solves meaning (some rep) v → E.Solves meaning (some m) v := by
    intro E m rep v further ended walk solved
    have inside := lt_size_of_representative walk
    by_cases now : graph'.pendingAt m = true
    · obtain ⟨state, here⟩ := exists_pending_of_pendingAt now
      cases walk.symm.trans (representative_of_not_link here rfl)
      exact solved
    · have now : graph'.pendingAt m = false := by simpa using now
      by_cases was : graph.pendingAt m = true ∨ graph.size ≤ m
      · exact (settled inside was now).aliases further walk solved
      · rw [not_or] at was
        obtain ⟨node, found, plain⟩ := plain_of_follow (ended.resolve_right was.2)
        have known : node.isPending = false := by
          rw [← pendingAt_eq found]
          simpa using was.1
        have stays := representative_of_not_link (grows.kept found known) plain
        cases walk.symm.trans stays
        exact solved
  have aliases : ∀ {E : Ledger} {n rep v}, D'.Extends E → graph'.representative n = .ok rep →
      E.Solves meaning (some rep) v → E.Solves meaning (some n) v := by
    intro E n rep v further walk solved
    by_cases inside : n < graph.size
    · obtain ⟨m, before, _, node, found, plain⟩ := yields_representative linked inside
      have m_inside := Nat.lt_of_lt_of_le (lt_size found) grows.size
      obtain ⟨r, rest, _⟩ := yields_representative linked' m_inside
      have through := representative_through grows linked' before rest
        (Nat.lt_of_lt_of_le inside grows.size)
      cases walk.symm.trans through
      exact fulfils.aliases (more.trans further) before
        (ends further (.inl (representative_of_not_link found plain)) rest solved)
    · exact ends further (.inr (Nat.not_lt.1 inside)) walk solved
  refine ⟨size, keeps, aliases, ?_⟩
  intro n v shown
  obtain ⟨rep, node, walk, found, known⟩ := shown.known
  obtain ⟨_, found', plain⟩ := plain_of_follow walk
  cases found.symm.trans found'
  have stays := representative_of_not_link found plain
  have shown := shown.congr (stays.trans walk.symm)
  refine aliases (.refl D') walk ?_
  by_cases was : graph.pendingAt rep = true ∨ graph.size ≤ rep
  · exact (settled (lt_size found) was (by rw [pendingAt_eq found, known])).shown stays shown
  · rw [not_or, Nat.not_le] at was
    obtain ⟨old, there⟩ := exists_node was.2
    have settled : old.isPending = false := by
      rw [← pendingAt_eq there]
      simpa using was.1
    cases found.symm.trans (grows.kept there settled)
    have seen : graph.Known rep := ⟨rep, node, representative_of_not_link there plain, there, known⟩
    exact (fulfils.shown (shown.of_grows seen grounded grows linked')).extends more

namespace Fulfils

theorem exists_entry (fulfils : Fulfils g meaning D graph) (inside : n < graph.size) :
    ∃ entry, D[n]? = some entry :=
  ⟨_, List.getElem?_eq_getElem (fulfils.size ▸ inside)⟩

/-- A pending attribute that is defined has its definition in the ledger. -/
theorem definition (fulfils : Fulfils g meaning D graph) {b : Binding} {w : List Nat} {o : Origin}
    (here : graph.nodes[n]? = some (.pending ⟨some b, w, o⟩)) :
    ∃ a ps, D[n]? = some (.declared o (some ⟨a, ps⟩)) ∧ g.action? b = some a ∧
      List.Forall₂ D.Stands ps b.params := by
  obtain ⟨entry, entered⟩ := fulfils.exists_entry (lt_size here)
  cases fulfils.keeps entered with
  | text there => cases here.symm.trans there
  | null there => cases here.symm.trans there
  | undefined there => cases (PendingAs.unique ⟨w, here⟩ there).1
  | @waiting o' b' a ps there action params =>
    obtain ⟨same, rfl⟩ := PendingAs.unique ⟨w, here⟩ there
    cases same
    exact ⟨a, ps, entered, action, params⟩
  | copied _ _ there => cases here.symm.trans there
  | computed _ _ there settled =>
    cases here.symm.trans there
    cases settled

/-- A pending attribute without a definition has none in the ledger. -/
theorem undefined (fulfils : Fulfils g meaning D graph) {w : List Nat} {o : Origin}
    (here : graph.nodes[n]? = some (.pending ⟨none, w, o⟩)) : D[n]? = some (.declared o none) := by
  obtain ⟨entry, entered⟩ := fulfils.exists_entry (lt_size here)
  rw [entered]
  cases fulfils.keeps entered with
  | text there => cases here.symm.trans there
  | null there => cases here.symm.trans there
  | undefined there =>
    obtain ⟨_, rfl⟩ := PendingAs.unique ⟨w, here⟩ there
    rfl
  | waiting there => cases (PendingAs.unique ⟨w, here⟩ there).1
  | copied _ _ there => cases here.symm.trans there
  | computed _ _ there settled =>
    cases here.symm.trans there
    cases settled

theorem presents_iff (fulfils : Fulfils g meaning D graph) {id : Nat} (stands : D.Stands p id) :
    graph.Presents p v ↔ graph.Shows id v := by
  cases p with
  | none =>
    have null : graph.Shows id .null := by
      cases fulfils.keeps stands with
      | null here => exact .leaf (representative_of_not_link here rfl) here rfl rfl
    constructor
    · rintro rfl
      exact null
    · intro shown
      exact shown.unique null
  | some n =>
    cases stands
    rfl

theorem forall₂_presents_iff (fulfils : Fulfils g meaning D graph) {ps : List (Option Nat)}
    {ids : List Nat} {vs : List (Snapshot V)} (stands : List.Forall₂ D.Stands ps ids) :
    List.Forall₂ graph.Presents ps vs ↔ List.Forall₂ graph.Shows ids vs := by
  induction stands generalizing vs with
  | nil => simp only [List.forall₂_nil_left_iff]
  | cons first _ ih => simp only [List.forall₂_cons_left_iff, fulfils.presents_iff first, ih]

theorem solves_of_presents (fulfils : Fulfils g meaning D graph) (presented : graph.Presents p v) :
    D.Solves meaning p v := by
  cases p with
  | none =>
    cases presented
    exact .missing
  | some n => exact fulfils.shown presented

/-- The definition of an attribute whose parameters are all known, with the trees that they show. -/
theorem exists_presented (fulfils : Fulfils g meaning D graph) (grounded : graph.Grounded)
    {b : Binding} {w : List Nat} {o : Origin} {a : SemanticAction}
    (here : graph.nodes[n]? = some (.pending ⟨some b, w, o⟩)) (action : g.action? b = some a)
    (known : ∀ p ∈ b.params, graph.Known p) :
    ∃ ps vs, D[n]? = some (.declared o (some ⟨a, ps⟩)) ∧ List.Forall₂ graph.Presents ps vs ∧
      List.Forall₂ graph.Shows b.params vs := by
  obtain ⟨vs, shown⟩ := exists_forall₂ fun p mem => exists_shows grounded (known p mem)
  obtain ⟨a', ps, entered, action', stands⟩ := fulfils.definition here
  cases action.symm.trans action'
  exact ⟨ps, vs, entered, (fulfils.forall₂_presents_iff stands).2 shown, shown⟩

/-- A node joins the graph, and its entry the ledger. -/
theorem alloc (fulfils : Fulfils g meaning D graph) (grounded : graph.Grounded)
    (linked : graph.Linked) (fresh : entry.Fresh) :
    Fulfils g meaning (D ++ [entry]) (graph.alloc entry.node).2 := by
  have more := Ledger.extends_append D [entry]
  have grows := grows_alloc graph (entry.node (V := V))
  have plain := entry.isLink_node (V := V)
  have linked' := linked.alloc plain
  have last : (graph.alloc entry.node).2.nodes[graph.size]? = some (entry.node (V := V)) := by
    rw [getElem?_alloc, if_pos rfl]
  have stays := representative_of_not_link last plain
  have entered : (D ++ [entry])[graph.size]? = some entry := by
    rw [← fulfils.size, List.getElem?_concat_length]
  refine fulfils.step grounded linked grows linked' more (by simp [fulfils.size]) ?_ ?_
  · intro n other here
    by_cases inside : n < D.length
    · rw [List.getElem?_append_left inside] at here
      exact (fulfils.keeps here).grows more grows linked' fun pending =>
        pendingAs_alloc.2 (.inl pending)
    · have same : n = graph.size := by
        have bound := (List.getElem?_eq_some_iff.1 here).1
        rw [List.length_append, List.length_singleton] at bound
        have size := fulfils.size
        omega
      subst same
      cases entered.symm.trans here
      cases entry with
      | text => exact .text last
      | null => exact .null last
      | declared o definition =>
        cases definition with
        | none => exact .undefined ⟨[], last⟩
        | some d => exact absurd rfl (fresh o d)
  · intro n inside was now
    have same : n = graph.size := by
      rcases was with pending | beyond
      · obtain ⟨state, here⟩ := exists_pending_of_pendingAt pending
        have still : (graph.alloc entry.node).2.PendingAs n state.binding state.origin :=
          pendingAs_alloc.2 (.inl ⟨state.waiters, here⟩)
        rw [still.pendingAt] at now
        cases now
      · rw [size_alloc] at inside
        omega
    subst same
    refine ⟨fun _ walk solved => ?_, fun _ shown => ?_⟩
    · cases stays.symm.trans walk
      exact solved
    · rw [pendingAt_eq last] at now
      cases entry with
      | text =>
        rw [shown.unique (.leaf stays last rfl rfl)]
        exact .text entered
      | null =>
        rw [shown.unique (.leaf stays last rfl rfl)]
        exact .null entered
      | declared => cases now

/-- An attribute is defined, in the graph and in the ledger. -/
theorem define (fulfils : Fulfils g meaning D graph) (grounded : graph.Grounded)
    (linked : graph.Linked) {b : Binding} {a : SemanticAction} {ps : List (Option Nat)}
    {w : List Nat} {o : Origin} (here : graph.nodes[n]? = some (.pending ⟨none, w, o⟩))
    (action : g.action? b = some a) (params : List.Forall₂ D.Stands ps b.params) :
    Fulfils g meaning (D.define (some n) ⟨a, ps⟩) (graph.put n (.pending ⟨some b, w, o⟩)) := by
  have more := Ledger.extends_define D (some n) ⟨a, ps⟩
  have grows : graph.Grows (graph.put n (.pending ⟨some b, w, o⟩)) :=
    grows_put here (.inl ⟨_, rfl, rfl, nofun⟩)
  have linked' := linked.put here grows rfl
  refine fulfils.step grounded linked grows linked' more (by simp [fulfils.size]) ?_ ?_
  · intro m entry entered
    rw [Ledger.getElem?_define] at entered
    split at entered
    · next same =>
      cases same
      rw [fulfils.undefined here] at entered
      cases entered
      exact .waiting ⟨w, getElem?_put_self (lt_size here)⟩ action
        (params.imp fun _ _ stands => stands.extends more)
    · next other =>
      refine (fulfils.keeps entered).grows more grows linked' fun pending => ?_
      exact (pendingAs_put_binding here).2 (.inl ⟨pending, fun same => other (congrArg some same)⟩)
  · intro m inside was now
    rw [size_put] at inside
    have pending := was.resolve_right (Nat.not_le.2 inside)
    by_cases same : n = m
    · subst same
      rw [pendingAt_eq (getElem?_put_self inside)] at now
      cases now
    · obtain ⟨state, there⟩ := exists_pending_of_pendingAt pending
      rw [← getElem?_put_ne same] at there
      rw [pendingAt_eq there] at now
      cases now

end Fulfils

end Graph

namespace Evaluation

open Graph

variable {σ V : Type} {g : Grammar} {h : Host σ V} {I : σ → Prop} {meaning : Meaning V}
  {e e' e₁ : Evaluation σ V} {D : Ledger} {target : Nat}

theorem contains_flags {graph : Graph V} {ps : List Nat} {vs : List (Snapshot V)}
    {flags : List Bool} (shown : List.Forall₂ graph.Shows ps vs)
    (errors : ps.mapM graph.isError = .ok flags) :
    flags.contains true = vs.any Snapshot.isError := by
  have same : ps.mapM graph.isError = .ok (vs.map Snapshot.isError) := by
    rw [mapM_eq_ok_iff, List.forall₂_map_right_iff]
    exact shown.imp fun _ _ shown => shown.isError
  rw [Except.ok.inj (errors.symm.trans same), ← List.any_beq']
  simp [Function.comp_def]

/-- What is computed from known parameters shows what the action makes of their trees. -/
theorem Computed.shows {a : SemanticAction} {ps : List Nat} {o : Origin} {node : Node V}
    {vs : List (Snapshot V)} {graph : Graph V} (computed : Computed h a ps o e node e₁)
    (functional : h.Functional I meaning) (host : I e.host) (unlocked : e.control.locked = false)
    (grounded : e.graph.Grounded) (shown : List.Forall₂ e.graph.Shows ps vs)
    (grows : e.graph.Grows graph) (linked : graph.Linked)
    (there : graph.nodes[target]? = some node) :
    graph.Shows target (a.apply meaning o.pos vs) := by
  have walk := representative_of_not_link there computed.plain.2.1
  have free : e.locked = false := by simp [locked, unlocked]
  have answered := fun control => functional.result ⟨a.function, o.pos, ps, e.graph⟩ control e.host
    vs host (snapshots_of_shows grounded shown)
  unfold SemanticAction.apply
  cases computed with
  | term errors soft =>
    rw [contains_flags shown errors] at there
    rw [if_pos soft]
    obtain ⟨length, each⟩ := List.forall₂_iff_zip.1 shown
    exact .term walk there length fun mem => (each mem).grows grows linked
  | null errors hard blocked =>
    rw [free, Bool.or_false, contains_flags shown errors] at blocked
    rw [if_neg (Bool.eq_false_iff.1 hard), if_pos blocked]
    exact .leaf walk there rfl rfl
  | value errors hard clean answer =>
    rw [free, Bool.or_false, contains_flags shown errors] at clean
    rw [if_neg (Bool.eq_false_iff.1 hard), if_neg (Bool.eq_false_iff.1 clean), ← answered, answer]
    exact .leaf walk there rfl rfl
  | refusal errors hard clean answer =>
    rw [free, Bool.or_false, contains_flags shown errors] at clean
    rw [if_neg (Bool.eq_false_iff.1 hard), if_neg (Bool.eq_false_iff.1 clean), ← answered, answer]
    exact .leaf walk there rfl rfl

theorem firstPending?_of_shows {graph : Graph V} {ps : List Nat} {vs : List (Snapshot V)}
    (shown : List.Forall₂ graph.Shows ps vs) : graph.firstPending? ps = .ok none := by
  induction shown with
  | nil => rfl
  | cons first _ ih => rw [firstPending?_of_known first.known, ih]

section Attempts

/-- An attempt touches its own attribute only. -/
theorem Attempted.fulfils_of (attempted : Attempted g h target e e') (healthy : e.Sound g)
    (grounded : e.graph.Grounded) (fulfils : Fulfils g meaning D e.graph)
    (keeps : ∀ {entry}, D[target]? = some entry → Keeps g meaning D e'.graph target entry)
    (settled : e'.graph.pendingAt target = false → Warranted meaning D e'.graph target) :
    Fulfils g meaning D e'.graph := by
  have linked' := (attempted.sound healthy).graph.linked
  refine fulfils.step grounded healthy.graph.linked attempted.grows linked' (.refl D)
    (fulfils.size.trans attempted.size.symm) ?_ ?_
  · intro n entry entered
    by_cases same : target = n
    · subst same
      exact keeps entered
    · exact (fulfils.keeps entered).grows (.refl D) attempted.grows linked'
        (attempted.pendingAs_of_ne same)
  · intro n inside was now
    rw [attempted.size] at inside
    have pending := was.resolve_right (Nat.not_le.2 inside)
    by_cases same : target = n
    · subst same
      exact settled now
    · obtain ⟨⟨binding, w, o⟩, here⟩ := exists_pending_of_pendingAt pending
      rw [(attempted.pendingAs_of_ne same ⟨w, here⟩).pendingAt] at now
      cases now

/-- A copy becomes an alias of what its parameter stands for. -/
theorem Attempted.fulfils_of_link (attempted : Attempted g h target e e') (healthy : e.Sound g)
    (grounded : e.graph.Grounded) (fulfils : Fulfils g meaning D e.graph) {b : Binding}
    {w : List Nat} {o : Origin} {a : SemanticAction} {id source : Nat} {node : Node V}
    (here : e.graph.nodes[target]? = some (.pending ⟨some b, w, o⟩)) (action : g.action? b = some a)
    (copy : a.isCopy = true) (param : b.params = [id])
    (walk : e.graph.representative id = .ok source) (different : target ≠ source)
    (link : e'.graph.nodes[target]? = some (.link source))
    (there : e'.graph.nodes[source]? = some node) (plain : node.isLink = false) :
    Fulfils g meaning D e'.graph := by
  have linked' := (attempted.sound healthy).graph.linked
  have stays := representative_of_not_link there plain
  have to_source := representative_of_link linked' link stays
  have param_inside := Nat.lt_of_lt_of_le (lt_size_of_representative walk) attempted.grows.size
  have from_param := representative_through attempted.grows linked' walk stays param_inside
  obtain ⟨a', ps, entered, action', stands⟩ := fulfils.definition here
  cases action.symm.trans action'
  rw [param] at stands
  obtain ⟨p, _, first, none, rfl⟩ := List.forall₂_cons_right_iff.1 stands
  cases List.forall₂_nil_right_iff.1 none
  refine attempted.fulfils_of healthy grounded fulfils (fun found => ?_) fun _ => ⟨?_, ?_⟩
  · cases entered.symm.trans found
    exact .copied copy first link to_source from_param
  · intro D' rep v more walk' solved
    cases to_source.symm.trans walk'
    have solved := fulfils.aliases more walk solved
    exact .copy (more entered nofun) copy ((first.extends more).solves solved)
  · intro v self
    exact absurd (Except.ok.inj (self.symm.trans to_source)) different

/-- An attempt fulfils the ledger as before. -/
theorem Attempted.fulfils (attempted : Attempted g h target e e')
    (functional : h.Functional I meaning) (host : I e.host) (unlocked : e.control.locked = false)
    (healthy : e.Sound g) (grounded : e.graph.Grounded) (fulfils : Fulfils g meaning D e.graph) :
    Fulfils g meaning D e'.graph := by
  have whole := attempted
  have linked' := (attempted.sound healthy).graph.linked
  cases attempted with
  | idle => exact fulfils
  | self => exact fulfils
  | @join b w o a id source state here defines copy param walk different there =>
    have later : (e.graph.put target (.link source)).nodes[source]? = some (.pending state) := by
      rw [getElem?_put_ne different, there]
    refine whole.fulfils_of_link healthy grounded fulfils here defines.action copy param walk
      different ?_ (getElem?_put_self (lt_size later)) rfl
    rw [getElem?_put_ne (Ne.symm different), getElem?_put_self (lt_size here)]
  | @link b w o a id source known here defines copy param walk different there =>
    obtain ⟨_, same, plain⟩ := plain_of_follow walk
    cases there.symm.trans same
    refine whole.fulfils_of_link healthy grounded fulfils here defines.action copy param walk
      different (getElem?_put_self (lt_size here)) ?_ plain
    rw [getElem?_put_ne different, there]
  | @park b w o a source state here defines copy first there =>
    dsimp only at whole linked' ⊢
    split
    · exact fulfils
    · next free =>
      rw [if_neg free] at whole linked'
      have pending : ∀ {n binding o}, e.graph.PendingAs n binding o → (e.graph.put source
          (.pending { state with waiters := state.waiters ++ [target] })).PendingAs n binding o :=
        (pendingAs_put_waiters there).2
      refine whole.fulfils_of healthy grounded fulfils (fun entered => ?_) fun settled => ?_
      · exact (fulfils.keeps entered).grows (.refl D) whole.grows linked' pending
      · rw [(pending ⟨w, here⟩).pendingAt] at settled
        cases settled
  | @settle e₁ b w o a node here defines copy first known computed =>
    obtain ⟨ps, vs, entered, presented, shown⟩ :=
      fulfils.exists_presented grounded here defines.action known
    have now : (e.graph.put target node).nodes[target]? = some node :=
      getElem?_put_self (lt_size here)
    obtain ⟨settled, plain, _⟩ := computed.plain
    have stays := representative_of_not_link now plain
    have result := computed.shows functional host unlocked grounded shown whole.grows linked' now
    refine whole.fulfils_of healthy grounded fulfils (fun found => ?_) fun _ => ⟨?_, ?_⟩
    · cases entered.symm.trans found
      exact .computed copy (presented.imp fun _ _ seen => seen.grows whole.grows linked') now
        settled plain result
    · intro D' rep v more walk solved
      cases stays.symm.trans walk
      exact solved
    · intro v _ shown
      rw [shown.unique result]
      obtain ⟨length, each⟩ := List.forall₂_iff_zip.1 presented
      exact .apply entered copy length fun mem => fulfils.solves_of_presents (each mem)

end Attempts

/-- When nothing is left to attempt, all solutions are shown. -/
theorem presents_of_solves (fulfils : Fulfils g meaning D e.graph) (tracked : Tracked g none e)
    (queue : e.queue = []) {p : Option Nat} {v : Snapshot V} (solved : D.Solves meaning p v) :
    e.graph.Presents p v := by
  induction solved with
  | missing => rfl
  | text entered =>
    cases fulfils.keeps entered with
    | text here => exact .leaf (representative_of_not_link here rfl) here rfl rfl
  | null entered =>
    cases fulfils.keeps entered with
    | null here => exact .leaf (representative_of_not_link here rfl) here rfl rfl
  | @copy n o a p v entered copy _ ih =>
    cases fulfils.keeps entered with
    | @waiting _ b _ _ here action stands =>
      obtain ⟨id, params, walk⟩ := tracked.looped ⟨o, here⟩ action copy nofun
      rw [params] at stands
      have first := (List.forall₂_cons.1 stands).1
      obtain ⟨rep, node, walk', found, known⟩ := ((fulfils.presents_iff first).1 ih).known
      cases walk.symm.trans walk'
      obtain ⟨w, here⟩ := here
      cases here.symm.trans found
      cases known
    | copied _ stands _ target param =>
      exact ((fulfils.presents_iff stands).1 ih).congr (target.trans param.symm)
    | computed computed =>
      rw [copy] at computed
      cases computed
  | @apply n o a ps vs entered computed length _ ih =>
    have presented : List.Forall₂ e.graph.Presents ps vs := List.forall₂_iff_zip.2 ⟨length, ih⟩
    cases fulfils.keeps entered with
    | @waiting _ b _ _ here action stands =>
      -- It would wait for a parameter that is pending, but all are known.
      have waits := tracked.waits.2 ⟨⟨b, a, ⟨o, here⟩, action, computed⟩, nofun⟩
      rw [queue, List.nil_append] at waits
      obtain ⟨m, state, there, among⟩ := mem_parked.1 waits
      have first := tracked.placed there among ⟨o, here⟩
      have shown := (fulfils.forall₂_presents_iff stands).1 presented
      cases (firstPending?_of_shows shown).symm.trans first
    | copied copy =>
      rw [copy] at computed
      cases computed
    | @computed _ _ _ vs' _ _ seen _ _ _ shown =>
      rw [forall₂_presents_unique presented seen]
      exact shown

end Evaluation

end GrammarMachine
