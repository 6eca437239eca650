import Mathlib.Data.Nat.Find
import Mathlib.Logic.Function.Basic
import Mathlib.Logic.Relation

/-!
# Forests of parent pointers

A partial function `parent` on a type points from a node to its parent, and `up parent n` goes `n`
levels up.  In a forest that is bounded by `n` nothing is left after `n` levels (`Bounded`), so that
it has no cycle and every node has a depth.  Moving a node below a new parent keeps the bound when
the new parent does not lie below the node and the depth of the one and the height of the other fit
into it (`Bounded.move`), and removing a node whose children move up to its parent keeps every bound
(`Bounded.promote`).

`levels` visits a forest, or any other graph, level by level and stops after a number of levels.
-/

universe u

namespace Forest

open Relation

variable {α : Type u}

/-- The ancestor `n` levels above a node. -/
def up (parent : α → Option α) : ℕ → α → Option α
  | 0, a => some a
  | n + 1, a => (parent a).bind (up parent n)

/-- No node has more than `n` levels above and including itself. -/
def Bounded (parent : α → Option α) (n : ℕ) : Prop :=
  ∀ a, up parent n a = none

/-- The depth of a node.  Roots have depth 1. -/
inductive Depth (parent : α → Option α) : α → ℕ → Prop where
  | root {a : α} (h : parent a = none) : Depth parent a 1
  | child {a b : α} {d : ℕ} (h : parent a = some b) (hb : Depth parent b d) : Depth parent a (d + 1)

section

variable {parent parent' : α → Option α}

/-! ### Going up -/

theorem up_add (m n : ℕ) (a : α) :
  up parent (m + n) a = (up parent m a).bind (up parent n)
  := by
  induction m generalizing a with
  | zero => rw [Nat.zero_add]; rfl
  | succ m ih =>
      rw [Nat.succ_add, up, up]
      cases parent a with
      | none => rfl
      | some b => apply ih

/-- Above a root there is nothing. -/
theorem up_eq_none_of_le {m n : ℕ} {a : α} (h : up parent m a = none) (hle : m ≤ n) :
  up parent n a = none
  := by
  obtain ⟨k, rfl⟩ := Nat.exists_eq_add_of_le hle
  rw [up_add, h]
  rfl

/-- A node with nothing after `n` levels has a depth, at most `n`. -/
theorem exists_depth {n : ℕ} {a : α} (h : up parent n a = none) :
  ∃ d ≤ n, Depth parent a d
  := by
  induction n generalizing a with
  | zero => cases h
  | succ n ih =>
      cases hparent : parent a with
      | none => exact ⟨1, by omega, .root hparent⟩
      | some b =>
          rw [up, hparent] at h
          obtain ⟨d, hd, hdepth⟩ := ih h
          exact ⟨d + 1, by omega, .child hparent hdepth⟩

theorem exists_up_of_transGen {a b : α} (h : TransGen (fun x y => parent x = some y) a b) :
  ∃ n, up parent (n + 1) a = some b
  := by
  induction h with
  | single h => use 0; rw [up, h]; rfl
  | tail _ h ih =>
      obtain ⟨n, hn⟩ := ih
      use n + 1
      rw [up_add, hn, Option.bind_some, up, h]
      rfl

/-- A bounded forest has no cycle. -/
theorem Bounded.not_transGen {n : ℕ} (h : Bounded parent n) (a : α) :
  ¬TransGen (fun x y => parent x = some y) a a
  := by
  intro hcycle
  obtain ⟨k, hk⟩ := exists_up_of_transGen hcycle
  have hrounds : ∀ m, up parent (m * (k + 1)) a = some a := by
    intro m
    induction m with
    | zero => rw [Nat.zero_mul]; rfl
    | succ m ih => rw [Nat.succ_mul, up_add, ih, Option.bind_some, hk]
  have hnone := up_eq_none_of_le (h a) (Nat.le_mul_of_pos_right n (Nat.succ_pos k))
  rw [hrounds n] at hnone
  cases hnone

theorem transGen_of_up {n : ℕ} {a b : α} (h : up parent (n + 1) a = some b) :
  TransGen (fun x y => parent x = some y) a b
  := by
  induction n generalizing a with
  | zero =>
      obtain ⟨c, hparent, hc⟩ := Option.bind_eq_some_iff.mp h
      obtain rfl := Option.some.inj hc
      apply TransGen.single
      exact hparent
  | succ n ih =>
      obtain ⟨c, hparent, hc⟩ := Option.bind_eq_some_iff.mp h
      apply TransGen.head _ (ih hc)
      exact hparent

/-- In a bounded forest no node lies above itself. -/
theorem Bounded.up_ne_self {n : ℕ} (h : Bounded parent n) (k : ℕ) (a : α) :
  up parent (k + 1) a ≠ some a
  := fun hup => h.not_transGen a (transGen_of_up hup)

/-! ### Moving a node -/

section

variable [DecidableEq α] {x : α} {p : Option α}

/-- The way up from a node is the same until it meets the node that is moved. -/
theorem up_update {n : ℕ} {a : α} (h : ∀ k < n, up parent k a ≠ some x) :
  up (Function.update parent x p) n a = up parent n a
  := by
  induction n generalizing a with
  | zero => rfl
  | succ n ih =>
      have hne : a ≠ x := by
        rintro rfl
        apply h 0 (Nat.succ_pos n) rfl
      rw [up, up, Function.update_of_ne hne]
      cases hparent : parent a with
      | none => rfl
      | some b =>
          apply ih
          intro k hk hup
          apply h (k + 1) (by omega)
          rw [up, hparent]
          apply hup

/-- A node is moved below a parent that does not lie below it. -/
theorem Bounded.move {depth height n : ℕ} (h : Bounded parent n)
    (hdepth : ∀ b, p = some b → up parent depth b = none)
    (hcycle : ∀ b, p = some b → ∀ k, up parent k b ≠ some x)
    (hheight : ∀ a, up parent height a ≠ some x) (hle : depth + height ≤ n) :
  Bounded (Function.update parent x p) n
  := by
  intro a
  by_cases hmeets : ∃ k, up parent k a = some x
  · -- `k` levels up the way from `a` first meets `x`, and goes on from the new parent.
    have hfirst := Nat.find_spec hmeets
    have hbefore := fun m => Nat.find_min (m := m) hmeets
    generalize Nat.find hmeets = k at hfirst hbefore
    have hk : k < height := by
      by_contra hge
      obtain ⟨j, rfl⟩ := Nat.exists_eq_add_of_le (Nat.not_lt.mp hge)
      rw [Nat.add_comm, up_add] at hfirst
      obtain ⟨b, -, hb⟩ := Option.bind_eq_some_iff.mp hfirst
      apply hheight b hb
    have hx : up (Function.update parent x p) (k + (depth + 1)) a
        = p.bind (up (Function.update parent x p) depth) := by
      rw [up_add, up_update fun m hm => hbefore m hm, hfirst, Option.bind_some, up,
        Function.update_self]
    apply up_eq_none_of_le _ (by omega : k + (depth + 1) ≤ n)
    rw [hx]
    cases hp : p with
    | none => rfl
    | some b =>
        rw [Option.bind_some, up_update fun m _ => hcycle b hp m]
        apply hdepth b hp
  · rw [up_update fun m _ hm => hmeets ⟨m, hm⟩]
    apply h

/-- Where moving a node leaves a forest, the new parent does not lie below the node. -/
theorem Bounded.up_ne_of_update {n : ℕ} {b : α}
    (h : Bounded (Function.update parent x (some b)) n) (k : ℕ) :
  up parent k b ≠ some x
  := by
  intro hup
  have hmeets : ∃ j, up parent j b = some x := ⟨k, hup⟩
  -- the way from `b` to where it first meets `x` is also one after the move
  have hfirst : up (Function.update parent x (some b)) (Nat.find hmeets) b = some x := by
    rw [up_update fun j hj => Nat.find_min hmeets hj]
    apply Nat.find_spec hmeets
  apply h.up_ne_self (Nat.find hmeets) x
  rw [up, Function.update_self, Option.bind_some, hfirst]

/-- A node is moved below a parent where its subtree does not fit. -/
theorem not_bounded_update {k d n : ℕ} {a b : α} (hself : ∀ j, up parent (j + 1) x ≠ some x)
    (hbelow : up parent k a = some x) (hcycle : ∀ j, up parent j b ≠ some x)
    (habove : up parent d b ≠ none) (hle : n ≤ k + 1 + d) :
  ¬Bounded (Function.update parent x (some b)) n
  := by
  intro hbounded
  have hfirst : ∀ j < k, up parent j a ≠ some x := by
    intro j hj hup
    obtain ⟨i, rfl⟩ := Nat.exists_eq_add_of_lt hj
    rw [Nat.add_assoc, up_add, hup] at hbelow
    apply hself i hbelow
  have hnone := up_eq_none_of_le (hbounded a) hle
  rw [Nat.add_assoc, up_add, up_update hfirst, hbelow, Option.bind_some, up_add, up,
    Function.update_self, Option.bind_some, up, Option.bind_some,
    up_update fun j _ => hcycle j] at hnone
  apply habove hnone

/-! ### Removing a node -/

/-- The forest without the node `x`, whose children move up to its parent. -/
def promote (parent : α → Option α) (x : α) (a : α) : Option α :=
  if a = x then none
  else if parent a = some x then parent x
  else parent a

@[simp]
theorem promote_self :
  promote parent x x = none
  := if_pos rfl

theorem promote_of_child {a : α} (ha : a ≠ x) (h : parent a = some x) :
  promote parent x a = parent x
  := by
  rw [promote, if_neg ha, if_pos h]

theorem promote_of_not_child {a : α} (ha : a ≠ x) (h : parent a ≠ some x) :
  promote parent x a = parent a
  := by
  rw [promote, if_neg ha, if_neg h]

/-- The way up goes past the removed node. -/
theorem Bounded.up_promote {n : ℕ} (h : Bounded parent n) (k : ℕ) (a : α) :
  ∃ m ≥ k, up (promote parent x) k a = up parent m a
  := by
  induction k generalizing a with
  | zero => exact ⟨0, Nat.le_refl 0, rfl⟩
  | succ k ih =>
      by_cases ha : a = x
      · subst ha
        use n + k + 1, by omega
        rw [up_eq_none_of_le (h a) (by omega : n ≤ n + k + 1), up, promote_self]
        rfl
      by_cases hchild : parent a = some x
      · rw [up, promote_of_child ha hchild]
        cases hx : parent x with
        | none =>
            use k + 2, by omega
            rw [up, hchild, Option.bind_some, up, hx]
            rfl
        | some b =>
            obtain ⟨m, hm, hb⟩ := ih b
            use m + 2, by omega
            rw [Option.bind_some, up, hchild, Option.bind_some, up, hx]
            apply hb
      · rw [up, promote_of_not_child ha hchild]
        cases hparent : parent a with
        | none =>
            use k + 1, by omega
            rw [up, hparent]
            rfl
        | some b =>
            obtain ⟨m, hm, hb⟩ := ih b
            use m + 1, by omega
            rw [up, hparent]
            apply hb

/-- No node gets deeper when another one is removed. -/
theorem Bounded.promote {n : ℕ} (h : Bounded parent n) (x : α) :
  Bounded (Forest.promote parent x) n
  := by
  intro a
  obtain ⟨m, hm, hup⟩ := h.up_promote n a
  rw [hup]
  apply up_eq_none_of_le (h a) hm

/-- The nodes that stay have the ancestors they had. -/
theorem transGen_promote {a b : α} (hself : parent x ≠ some x) (ha : a ≠ x) (hb : b ≠ x) :
  TransGen (fun u v => promote parent x u = some v) a b
    ↔ TransGen (fun u v => parent u = some v) a b
  := by
  constructor
  · intro hpath
    induction hpath with
    | @single v hstep =>
        by_cases hchild : parent a = some x
        · rw [promote_of_child ha hchild] at hstep
          have hfirst : TransGen (fun u v => parent u = some v) a x := .single hchild
          apply hfirst.tail hstep
        · rw [promote_of_not_child ha hchild] at hstep
          exact .single hstep
    | @tail u v _ hstep ih =>
        have hu : u ≠ x := by
          rintro rfl
          rw [promote_self] at hstep
          cases hstep
        by_cases hchild : parent u = some x
        · rw [promote_of_child hu hchild] at hstep
          apply ((ih hu).tail hchild).tail hstep
        · rw [promote_of_not_child hu hchild] at hstep
          apply (ih hu).tail hstep
  · intro hpath
    -- From `x` on, the way is shown to lead on from the children of `x`.
    have hboth : (a ≠ x → TransGen (fun u v => promote parent x u = some v) a b)
        ∧ (a = x → ∀ c, c ≠ x → parent c = some x →
          TransGen (fun u v => promote parent x u = some v) c b) := by
      clear ha
      induction hpath using TransGen.head_induction_on with
      | @single a hstep =>
          constructor
          · intro ha
            apply TransGen.single
            rw [promote_of_not_child ha, hstep]
            rw [hstep]
            rintro ⟨⟩
            exact hb rfl
          · rintro rfl c hc hchild
            apply TransGen.single
            rw [promote_of_child hc hchild, hstep]
      | @head a u hstep _ ih =>
          constructor
          · intro ha
            by_cases hu : u = x
            · subst hu
              apply ih.2 rfl a ha hstep
            · apply TransGen.head _ (ih.1 hu)
              rw [promote_of_not_child ha, hstep]
              rw [hstep]
              rintro ⟨⟩
              exact hu rfl
          · rintro rfl c hc hchild
            have hu : u ≠ a := by
              rintro rfl
              exact hself hstep
            apply TransGen.head _ (ih.1 hu)
            rw [promote_of_child hc hchild, hstep]
    apply hboth.1 ha

/-- The nodes that stay are no deeper than they were. -/
theorem Depth.promote {a : α} {d : ℕ} (hself : parent x ≠ some x) (h : Depth parent a d)
    (ha : a ≠ x) :
  ∃ d' ≤ d, Depth (Forest.promote parent x) a d'
  := by
  -- The parent of `x` gets the children of `x`, one level higher.
  have hboth : (a ≠ x → ∃ d' ≤ d, Depth (Forest.promote parent x) a d')
      ∧ (a = x → ∀ c, parent x = some c → ∃ d' < d, Depth (Forest.promote parent x) c d') := by
    clear ha
    induction h with
    | @root a hroot =>
        constructor
        · intro ha
          refine ⟨1, Nat.le_refl 1, .root ?_⟩
          rw [promote_of_not_child ha, hroot]
          rw [hroot]
          nofun
        · rintro rfl c hc
          rw [hroot] at hc
          cases hc
    | @child a b d hparent _ ih =>
        constructor
        · intro ha
          by_cases hb : b = x
          · subst hb
            cases hx : parent b with
            | none =>
                refine ⟨1, by omega, .root ?_⟩
                rw [promote_of_child ha hparent, hx]
            | some c =>
                obtain ⟨d', hd', hdepth⟩ := ih.2 rfl c hx
                refine ⟨d' + 1, by omega, .child ?_ hdepth⟩
                rw [promote_of_child ha hparent, hx]
          · obtain ⟨d', hd', hdepth⟩ := ih.1 hb
            refine ⟨d' + 1, by omega, .child ?_ hdepth⟩
            rw [promote_of_not_child ha, hparent]
            rw [hparent]
            rintro ⟨⟩
            exact hb rfl
        · rintro rfl c hc
          have hbc : b = c := by
            rw [hparent] at hc
            exact Option.some.inj hc
          subst hbc
          have hb : b ≠ a := by
            rintro rfl
            exact hself hparent
          obtain ⟨d', hd', hdepth⟩ := ih.1 hb
          exact ⟨d', by omega, hdepth⟩
  apply hboth.1 ha

end

end

/-! ### Visiting level by level -/

section

variable (join : α → List α)

/-- The rows of the first `limit` levels, each made of the rows before it. -/
def levels : ℕ → List α → List (List α)
  | 0, _ => []
  | limit + 1, rows => rows :: levels limit (rows.flatMap join)

/-- The rows `n` levels further. -/
def level : ℕ → List α → List α
  | 0, rows => rows
  | n + 1, rows => level n (rows.flatMap join)

/-- The number of levels with rows. -/
def height (limit : ℕ) (rows : List α) : ℕ :=
  (levels join limit rows).countP fun rows => !rows.isEmpty

variable {join}

@[simp]
theorem flatten_levels_nil (limit : ℕ) :
  (levels join limit []).flatten = []
  := by
  induction limit with
  | zero => rfl
  | succ limit ih => apply ih

@[simp]
theorem height_nil (limit : ℕ) :
  height join limit [] = 0
  := by
  induction limit with
  | zero => rfl
  | succ limit ih => apply ih

theorem height_cons {limit : ℕ} {rows : List α} (h : rows ≠ []) :
  height join (limit + 1) rows = height join limit (rows.flatMap join) + 1
  := by
  apply List.countP_cons_of_pos
  simpa using h

/-- A limit that reaches an empty level finds the height. -/
theorem height_of_level {n limit : ℕ} {rows : List α} (h : level join n rows = [])
    (hle : n ≤ limit) :
  height join limit rows = height join n rows
  := by
  induction n generalizing limit rows with
  | zero =>
      obtain rfl : rows = [] := h
      simp
  | succ n ih =>
      obtain ⟨limit, rfl⟩ := Nat.exists_eq_add_of_le' (Nat.le_trans (Nat.succ_pos n) hle)
      by_cases hrows : rows = []
      · subst hrows
        simp
      · rw [height_cons hrows, height_cons hrows, ih h (by omega)]

/-- The level after the last one that was found is empty, unless the visit ended there. -/
theorem level_height {limit : ℕ} {rows : List α} (h : height join limit rows < limit) :
  level join (height join limit rows) rows = []
  := by
  induction limit generalizing rows with
  | zero => cases h
  | succ limit ih =>
      by_cases hrows : rows = []
      · subst hrows
        rw [height_nil]
        rfl
      · rw [height_cons hrows] at h ⊢
        apply ih (by omega)

/-- The levels that were found have rows. -/
theorem level_ne_nil {n limit : ℕ} {rows : List α} (h : n < height join limit rows) :
  level join n rows ≠ []
  := by
  induction n generalizing limit rows with
  | zero =>
      rintro rfl
      rw [height_nil] at h
      cases h
  | succ n ih =>
      cases limit with
      | zero => cases h
      | succ limit =>
          have hrows : rows ≠ [] := by
            rintro rfl
            rw [height_nil] at h
            cases h
          rw [height_cons hrows] at h
          apply ih (Nat.lt_of_succ_lt_succ h)

/-- No more levels are found than there are. -/
theorem height_le_of_level {n limit : ℕ} {rows : List α} (h : level join n rows = []) :
  height join limit rows ≤ n
  := by
  induction n generalizing limit rows with
  | zero =>
      obtain rfl : rows = [] := h
      rw [height_nil]
  | succ n ih =>
      cases limit with
      | zero => apply Nat.zero_le
      | succ limit =>
          by_cases hrows : rows = []
          · subst hrows
            rw [height_nil]
            apply Nat.zero_le
          · rw [height_cons hrows]
            apply Nat.succ_le_succ
            apply ih h

end

end Forest
