import GrammarMachine.Parse.Expected
import GrammarMachine.Proofs.Parse.Safety
import Mathlib.Data.List.Sort

/-!
What a syntax error says would have been taken. The message walks through the entries of a state and
leaves off once it has more names than it lists; the table is asked terminal by terminal. A terminal
is taken just when an entry other than an error covers it, so both come past the same terminals in
the same order, and what is added behind a full list of names is cut off again.
-/

namespace GrammarMachine

section Names

variable {α : Type} [BEq α] [LawfulBEq α] {xs ys : List α} {x : α}

theorem eraseDups_append_of_subset (known : ∀ y ∈ ys, y ∈ xs) :
    (xs ++ ys).eraseDups = xs.eraseDups := by
  have none : ys.removeAll xs = [] := by
    simpa [List.removeAll, List.filter_eq_nil_iff] using known
  rw [List.eraseDups_append, none, List.eraseDups_nil, List.append_nil]

theorem eraseDups_concat :
    (xs ++ [x]).eraseDups =
      if xs.eraseDups.contains x then xs.eraseDups else xs.eraseDups ++ [x] := by
  by_cases mem : x ∈ xs
  · have known : ∀ y ∈ [x], y ∈ xs := by simpa using mem
    rw [eraseDups_append_of_subset known, if_pos (by simpa using mem)]
  · rw [List.eraseDups_append, if_neg (by simpa using mem)]
    simp [List.removeAll, mem, List.eraseDups_cons]

theorem take_eraseDups_append {n : Nat} (full : n ≤ xs.eraseDups.length) :
    (xs ++ ys).eraseDups.take n = xs.eraseDups.take n := by
  rw [List.eraseDups_append, List.take_append_of_le_length full]

end Names

namespace ParserState

variable {g : Grammar} {s : ParserState} {t : UInt32}

/-- Does the table hold something other than an error for the terminal? -/
def takes (s : ParserState) (t : UInt32) : Bool := (s.action? t).any fun a => a.kind != .error

theorem takes_iff (formed : s.WellFormed g) :
    s.takes t = true ↔ ∃ a ∈ s.declared, a.kind ≠ .error ∧ a.low ≤ t ∧ t ≤ a.high := by
  simp only [takes, Option.any_eq_true, bne_iff_ne, ne_eq]
  constructor
  · rintro ⟨a, found, other⟩
    rcases mem_of_action? found with covers | back
    · exact ⟨a, covers.1, other, covers.2⟩
    · obtain ⟨last, there, error⟩ := formed.catchAll
      cases back.symm.trans there
      exact absurd error other
  · rintro ⟨a, mem, other, low, high⟩
    exact ⟨a, action?_of_mem formed.apart formed.proper mem low high, other⟩

/-- The terminals that an entry stands for, unless it is for errors. -/
def passed (a : Action) : List Nat :=
  if a.kind == .error then [] else List.range' a.low.toNat (a.high.toNat + 1 - a.low.toNat)

/-- The terminals that the state's entries stand for. -/
def walked (s : ParserState) : List Nat := s.declared.toList.flatMap passed

theorem mem_passed {a : Action} {n : Nat} :
    n ∈ passed a ↔ a.kind ≠ .error ∧ a.low.toNat ≤ n ∧ n ≤ a.high.toNat := by
  by_cases error : a.kind = .error
  · simp [passed, error]
  · simp only [passed, beq_iff_eq, error, if_false, List.mem_range'_1, ne_eq, not_false_eq_true,
      true_and]
    omega

theorem passed_ascending (a : Action) : (passed a).Pairwise (· < ·) := by
  unfold passed
  split
  · exact .nil
  · exact List.pairwise_lt_range' 1

theorem walked_ascending (formed : s.WellFormed g) : s.walked.Pairwise (· < ·) := by
  refine List.pairwise_flatMap.2 ⟨fun a _ => passed_ascending a, formed.apart.imp ?_⟩
  intro a a' behind n mem n' mem'
  rw [mem_passed] at mem mem'
  rw [UInt32.lt_iff_toNat_lt] at behind
  omega

/-- The entries stand for the terminals that the state takes, in order. -/
theorem walked_eq_filter (formed : s.WellFormed g) :
    s.walked = (List.range (min g.tokens.size UInt32.size)).filter fun n => s.takes n.toUInt32 := by
  refine (walked_ascending formed).eq_of_mem_iff (List.pairwise_lt_range.filter _) fun n => ?_
  have toNat (inside : n < UInt32.size) : n.toUInt32.toNat = n := UInt32.toNat_ofNat_of_lt' inside
  simp only [walked, List.mem_flatMap, Array.mem_toList_iff, mem_passed, List.mem_filter,
    List.mem_range, takes_iff formed, UInt32.le_iff_toNat_le]
  constructor
  · rintro ⟨a, mem, other, low, high⟩
    have terminal := formed.terminal a mem
    have word := a.high.toNat_lt_size
    rw [toNat (by omega)]
    exact ⟨by omega, a, mem, other, low, high⟩
  · rintro ⟨inside, a, mem, other, covers⟩
    rw [toNat (by omega)] at covers
    exact ⟨a, mem, other, covers⟩

end ParserState

namespace Grammar

variable {g : Grammar} {s : ParserState} {xs : List String}

/-- The numbers of the terminals, in order. -/
def terminals (g : Grammar) : List UInt32 := (List.range g.tokens.size).map Nat.toUInt32

/-- The names of the terminals that the state takes, in order and each once. -/
def takenNames (g : Grammar) (s : ParserState) : List String :=
  ((g.terminals.filter s.takes).map g.tokenName).eraseDups

/-- As many of the first names as show whether all of them are listed. -/
def firstNames (xs : List String) : List String := xs.eraseDups.take (maxListed + 1)

theorem firstNames_append_of_full {ys : List String} (full : maxListed < (firstNames xs).length) :
    firstNames (xs ++ ys) = firstNames xs := by
  rw [firstNames, List.length_take] at full
  exact take_eraseDups_append (by omega)

theorem firstNames_concat {name : String} (short : ¬maxListed < (firstNames xs).length) :
    firstNames (xs ++ [name]) =
      if (firstNames xs).contains name then firstNames xs else firstNames xs ++ [name] := by
  rw [firstNames, List.length_take] at short
  have whole : firstNames xs = xs.eraseDups := List.take_of_length_le (by omega)
  have fits : (xs ++ [name]).eraseDups.length ≤ maxListed + 1 := by
    rw [eraseDups_concat]
    split
    · omega
    · rw [List.length_append, List.length_singleton]
      omega
  rw [firstNames, List.take_of_length_le fits, eraseDups_concat, whole]

theorem addNames_firstNames (n t : Nat) (xs : List String) :
    g.addNames n t (firstNames xs) =
      firstNames (xs ++ (List.range' t n).map fun t => g.tokenName t.toUInt32) := by
  induction n generalizing t xs with
  | zero => simp [addNames]
  | succ n ih =>
    rw [addNames, List.range'_succ, List.map_cons]
    split
    · next full => rw [firstNames_append_of_full full]
    · next short =>
      dsimp only
      rw [← firstNames_concat short, ih, List.append_assoc, List.singleton_append]

/-- The walk through the entries keeps the first names of what it came past. -/
theorem expectedNames_eq :
    g.expectedNames s = firstNames (s.walked.map fun t => g.tokenName t.toUInt32) := by
  suffices ∀ (as : List Action) (xs : List String),
      as.foldl (fun names a => if a.kind == .error then names
        else g.addNames (a.high.toNat + 1 - a.low.toNat) a.low.toNat names) (firstNames xs) =
      firstNames (xs ++ (as.flatMap ParserState.passed).map fun t => g.tokenName t.toUInt32) from
    this s.declared.toList []
  intro as
  induction as with
  | nil => simp
  | cons a rest ih =>
    intro xs
    rw [List.foldl_cons, List.flatMap_cons, List.map_append, ← List.append_assoc, ← ih,
      ParserState.passed]
    split
    · rw [List.map_nil, List.append_nil]
    · rw [addNames_firstNames]

/-- Terminals beyond the numbers there are have those of others again. -/
theorem exists_terminals (g : Grammar) :
    ∃ again, g.terminals =
        (List.range (min g.tokens.size UInt32.size)).map Nat.toUInt32 ++ again ∧
      ∀ t ∈ again, t ∈ (List.range (min g.tokens.size UInt32.size)).map Nat.toUInt32 := by
  obtain ⟨more, size⟩ := Nat.exists_eq_add_of_le (Nat.min_le_left g.tokens.size UInt32.size)
  refine ⟨((List.range more).map (min g.tokens.size UInt32.size + ·)).map Nat.toUInt32, ?_, ?_⟩
  · conv_lhs => rw [terminals, size, List.range_add, List.map_append]
  · intro t mem
    rw [List.map_map, List.mem_map] at mem
    obtain ⟨n, inside, rfl⟩ := mem
    rw [List.mem_range] at inside
    refine List.mem_map.2 ⟨_, List.mem_range.2 ?_, UInt32.ofNat_toNat⟩
    have word := UInt32.toNat_lt_size (Nat.toUInt32 (min g.tokens.size UInt32.size + n))
    dsimp only [Function.comp_apply]
    omega

theorem takenNames_eq (formed : s.WellFormed g) :
    g.takenNames s = (s.walked.map fun t => g.tokenName t.toUInt32).eraseDups := by
  obtain ⟨again, terminals, known⟩ := g.exists_terminals
  have walked : (s.walked.map Nat.toUInt32) =
      ((List.range (min g.tokens.size UInt32.size)).map Nat.toUInt32).filter s.takes := by
    rw [ParserState.walked_eq_filter formed, List.filter_map]
    rfl
  rw [takenNames, terminals, List.filter_append, List.map_append, eraseDups_append_of_subset,
    ← walked, List.map_map]
  · rfl
  · intro name mem
    obtain ⟨t, taken, rfl⟩ := List.mem_map.1 mem
    obtain ⟨inside, takes⟩ := List.mem_filter.1 taken
    exact List.mem_map.2 ⟨t, List.mem_filter.2 ⟨known t inside, takes⟩, rfl⟩

/-- The names that a message lists out of `names`, the last one standing for those left out. -/
def listed (names : List String) : List String :=
  if names.length ≤ maxListed then names else names.take maxListed ++ ["…"]

theorem expectedText_eq (or : String) {names : List String}
    (first : g.expectedNames s = names.take (maxListed + 1)) :
    g.expectedText or s = or.intercalate (listed names) := by
  have cut : (names.take (maxListed + 1)).take maxListed = names.take maxListed := by
    rw [List.take_take, Nat.min_eq_left (Nat.le_succ maxListed)]
  have shorter : maxListed < (names.take (maxListed + 1)).length ↔ ¬names.length ≤ maxListed := by
    rw [List.length_take]
    omega
  simp only [expectedText, first, cut, shorter, listed, ite_not]
  split
  · next short => rw [List.take_of_length_le short]
  · next long =>
    have some_name : names.take maxListed ≠ [] := by
      rw [ne_eq, List.take_eq_nil_iff]
      rintro (none | none)
      · cases none
      · exact long (by simp [none])
    rw [String.intercalate_append_of_ne_nil some_name (List.cons_ne_nil _ _),
      String.intercalate_singleton]

end Grammar

/-- A syntax error in a state of a checked grammar lists the names of the terminals that the table
takes there: all of them if there are at most sixteen. -/
theorem syntax_errors_list_what_is_taken {σ V : Type} {g : Grammar} (valid : g.check = .ok ())
    (h : Host σ V) (host : σ) {s : ParserState} (mem : s ∈ g.states) (token : Token) :
    g.expectedNames s = (g.takenNames s).take 17 ∧
      Message.syntaxError g h host s token =
        ⟨.expected, [(h.message host Key.or.name []).intercalate (Grammar.listed (g.takenNames s)),
          g.readText (h.message host Key.endOfText.name []) token]⟩ := by
  have formed := (Grammar.wellFormed_of_check valid).states s mem
  have first : g.expectedNames s = (g.takenNames s).take (Grammar.maxListed + 1) := by
    rw [Grammar.expectedNames_eq, Grammar.takenNames_eq formed, Grammar.firstNames]
  refine ⟨first, ?_⟩
  dsimp only [Message.syntaxError]
  rw [Grammar.expectedText_eq _ first]

section Samples

open Samples.Calculator

/-- Behind a factor the calculator takes operators, a bracket and the end. -/
theorem calculator_lists_what_follows_factor :
    (grammar .hard).check = .ok () ∧ ∃ s ∈ (grammar .hard).states,
      (grammar .hard).expectedNames s = ["end of text", "'+'", "'*'", "')'"] ∧
      Message.syntaxError (grammar .hard) host (.start false) s ⟨4, none, ⟨0, 1, 1⟩, false⟩ =
        ⟨.expected, ["end of text or '+' or '*' or ')'", "'('"]⟩ := by
  have valid := check_grammar .hard
  have mem : states[3] ∈ (grammar .hard).states := Array.getElem_mem _
  obtain ⟨names, message⟩ := syntax_errors_list_what_is_taken valid host (.start false) mem
    ⟨4, none, ⟨0, 1, 1⟩, false⟩
  exact ⟨valid, _, mem, names.trans (by decide +kernel), message.trans (by decide +kernel)⟩

end Samples

end GrammarMachine
