import Cardfolio.Number.Basic

/-!
# Numbers in order

Numbers are compared by their places, and the places form a line: of two different
ones, one is to the left of the other. All that sorting and grouping need follows
from that. `lt` goes one way only, what is not before something is not before what
comes after it, and `same` is what is left when neither of two numbers is before
the other. The double that is no number has no place. It is before nothing, after
nothing and the same as nothing, itself included, so every law that would need it
to stand somewhere asks that it is not met.

The least and the greatest number are found in one pass that keeps the best number so
far. What is found is one of the numbers, and none of them is better; both are
instances of one argument, about any comparison that is `Decisive`.
-/

namespace Cardfolio

namespace Place

theorem lt_irrefl (p : Place) : p.lt p = false := by
  cases p with
  | below => rfl
  | units n =>
      show decide (n < n) = false
      rw [decide_eq_false_iff_not]
      omega
  | above => rfl

theorem lt_trans {p q r : Place} (hpq : p.lt q = true) (hqr : q.lt r = true) :
    p.lt r = true := by
  cases p <;> cases q <;> cases r <;> simp_all only [lt, decide_eq_true_eq, reduceCtorEq]
  omega

theorem lt_or_eq_or_lt (p q : Place) : p.lt q = true ∨ p = q ∨ q.lt p = true := by
  cases p <;> cases q <;>
    simp only [lt, decide_eq_true_eq, reduceCtorEq, units.injEq, true_or, or_true]
  omega

end Place

namespace Number

theorem place?_eq_none_iff {n : Number} : n.place? = none ↔ n.isNaN = true := by
  match n with
  | .whole _ => exact ⟨nofun, nofun⟩
  | .real (.nan _) => exact ⟨fun _ => rfl, fun _ => rfl⟩
  | .real (.infinite _) => exact ⟨nofun, nofun⟩
  | .real (.finite _ _ _) => exact ⟨nofun, nofun⟩

/-- The settled form of a double is a number when the double is. -/
theorem isNaN_settle (x : Binary64) : (settle x).isNaN = x.isNaN := by
  unfold settle
  cases x with
  | nan => rfl
  | infinite negative => rfl
  | finite negative units hr => split <;> rfl

theorem exists_place {n : Number} (h : n.isNaN = false) : ∃ p, n.place? = some p := by
  cases hp : n.place? with
  | none =>
      rw [place?_eq_none_iff.mp hp] at h
      cases h
  | some p => exact ⟨p, rfl⟩

theorem lt_eq {a b : Number} {p q : Place} (ha : a.place? = some p)
    (hb : b.place? = some q) : a.lt b = p.lt q := by
  rw [lt, ha, hb]

theorem same_eq {a b : Number} {p q : Place} (ha : a.place? = some p)
    (hb : b.place? = some q) : a.same b = decide (p = q) := by
  rw [same, ha, hb]

theorem places_of_lt {a b : Number} (h : a.lt b = true) :
    ∃ p q, a.place? = some p ∧ b.place? = some q ∧ p.lt q = true := by
  unfold lt at h
  split at h
  · next p q ha hb =>
      exact ⟨p, q, ha, hb, h⟩
  · cases h

theorem place_of_same {a b : Number} (h : a.same b = true) :
    ∃ p, a.place? = some p ∧ b.place? = some p := by
  unfold same at h
  split at h
  · next p q ha hb =>
      rw [decide_eq_true_eq] at h
      subst h
      exact ⟨p, ha, hb⟩
  · cases h

theorem lt_trans {a b c : Number} (hab : a.lt b = true) (hbc : b.lt c = true) :
    a.lt c = true := by
  obtain ⟨p, q, ha, hb, hpq⟩ := places_of_lt hab
  obtain ⟨q', r, hb', hc, hqr⟩ := places_of_lt hbc
  obtain rfl : q = q' := Option.some.inj (hb.symm.trans hb')
  rw [lt_eq ha hc]
  exact Place.lt_trans hpq hqr

theorem lt_irrefl (a : Number) : a.lt a = false := by
  rw [Bool.eq_false_iff]
  intro h
  obtain ⟨p, q, hp, hq, hpq⟩ := places_of_lt h
  obtain rfl : p = q := Option.some.inj (hp.symm.trans hq)
  rw [Place.lt_irrefl] at hpq
  cases hpq

theorem lt_asymm {a b : Number} (h : a.lt b = true) : b.lt a = false := by
  rw [Bool.eq_false_iff]
  intro hba
  have hirrefl := lt_irrefl a
  rw [lt_trans h hba] at hirrefl
  cases hirrefl

/-- Unless it is no number, what lies between two numbers that are in order keeps
them in order. -/
theorem not_lt_trans {a b c : Number} (hb : b.isNaN = false) (hab : b.lt a = false)
    (hbc : c.lt b = false) : c.lt a = false := by
  rw [Bool.eq_false_iff]
  intro hca
  obtain ⟨r, p, hc, ha, hrp⟩ := places_of_lt hca
  obtain ⟨q, hq⟩ := exists_place hb
  rw [lt_eq hq ha] at hab
  rw [lt_eq hc hq] at hbc
  rcases Place.lt_or_eq_or_lt p q with hpq | rfl | hqp
  · rw [Place.lt_trans hrp hpq] at hbc
    cases hbc
  · rw [hrp] at hbc
    cases hbc
  · rw [hqp] at hab
    cases hab

theorem same_self {a : Number} (h : a.isNaN = false) : a.same a = true := by
  obtain ⟨p, hp⟩ := exists_place h
  rw [same_eq hp hp, decide_eq_true_eq]

/-- Only what has a place is the same as itself. -/
theorem same_self_iff {a : Number} : a.same a = true ↔ a.isNaN = false := by
  refine ⟨fun h => ?_, same_self⟩
  obtain ⟨p, hp, _⟩ := place_of_same h
  rw [Bool.eq_false_iff, Ne, ← place?_eq_none_iff, hp]
  nofun

theorem same_symm {a b : Number} (h : a.same b = true) : b.same a = true := by
  obtain ⟨p, ha, hb⟩ := place_of_same h
  rw [same_eq hb ha]
  exact decide_eq_true rfl

theorem same_trans {a b c : Number} (hab : a.same b = true) (hbc : b.same c = true) :
    a.same c = true := by
  obtain ⟨p, ha, hb⟩ := place_of_same hab
  obtain ⟨q, hb', hc⟩ := place_of_same hbc
  obtain rfl : p = q := Option.some.inj (hb.symm.trans hb')
  rw [same_eq ha hc]
  exact decide_eq_true rfl

/-- Of two numbers one is before the other, or they are the same. -/
theorem same_of_not_lt {a b : Number} (ha : a.isNaN = false) (hb : b.isNaN = false)
    (hab : a.lt b = false) (hba : b.lt a = false) : a.same b = true := by
  obtain ⟨p, hp⟩ := exists_place ha
  obtain ⟨q, hq⟩ := exists_place hb
  rw [lt_eq hp hq] at hab
  rw [lt_eq hq hp] at hba
  rw [same_eq hp hq, decide_eq_true_eq]
  rcases Place.lt_or_eq_or_lt p q with hlt | heq | hlt
  · rw [hlt] at hab
    cases hab
  · exact heq
  · rw [hlt] at hba
    cases hba

theorem lt_of_lt_of_same {a b c : Number} (hab : a.lt b = true) (hbc : b.same c = true) :
    a.lt c = true := by
  obtain ⟨p, q, ha, hb, hpq⟩ := places_of_lt hab
  obtain ⟨q', hb', hc⟩ := place_of_same hbc
  obtain rfl := Option.some.inj (hb.symm.trans hb')
  rw [lt_eq ha hc]
  exact hpq

theorem lt_of_same_of_lt {a b c : Number} (hab : a.same b = true) (hbc : b.lt c = true) :
    a.lt c = true := by
  obtain ⟨p, ha, hb⟩ := place_of_same hab
  obtain ⟨p', q, hb', hc, hpq⟩ := places_of_lt hbc
  obtain rfl := Option.some.inj (hb.symm.trans hb')
  rw [lt_eq ha hc]
  exact hpq

theorem le_of_lt {a b : Number} (h : a.lt b = true) : a.le b = true := by
  rw [le, h, Bool.true_or]

theorem le_of_same {a b : Number} (h : a.same b = true) : a.le b = true := by
  rw [le, h, Bool.or_true]

theorem lt_or_same_of_le {a b : Number} (h : a.le b = true) : a.lt b = true ∨ a.same b = true :=
  (Bool.or_eq_true ..).mp h

theorem lt_of_le_of_lt {a b c : Number} (hab : a.le b = true) (hbc : b.lt c = true) :
    a.lt c = true := by
  rcases lt_or_same_of_le hab with hlt | hsame
  · exact lt_trans hlt hbc
  · exact lt_of_same_of_lt hsame hbc

/-- One pass that keeps the best number so far, which only a better one replaces. -/
def best (better : Number → Number → Bool) (first : Number) (rest : List Number) : Number :=
  rest.foldl (fun kept n => if better n kept then n else kept) first

theorem best_mem (better : Number → Number → Bool) (first : Number) (rest : List Number) :
    best better first rest ∈ first :: rest := by
  induction rest generalizing first with
  | nil => exact List.mem_singleton_self first
  | cons second rest ih =>
      show best better (if better second first then second else first) rest ∈ _
      have h := ih (if better second first then second else first)
      split at h
      · next hbetter =>
          rw [if_pos hbetter]
          exact List.mem_cons_of_mem _ h
      · next hbetter =>
          rw [if_neg hbetter]
          rcases List.mem_cons.mp h with heq | hmem
          · rw [heq]
            exact List.mem_cons_self
          · exact List.mem_cons_of_mem _ (List.mem_cons_of_mem _ hmem)

/-- What makes a comparison of numbers fit for one pass: it goes one way only, and
what is no better than something is no better than what is no worse. -/
structure Decisive (better : Number → Number → Bool) : Prop where
  asymm : ∀ a b, better a b = true → better b a = false
  trans : ∀ a b c, b.isNaN = false → better a b = false → better b c = false →
    better a c = false

theorem Decisive.irrefl {better : Number → Number → Bool} (h : Decisive better)
    (a : Number) : better a a = false := by
  cases haa : better a a with
  | false => rfl
  | true =>
      rw [← haa]
      exact h.asymm a a haa

theorem lt_decisive : Decisive lt where
  asymm _ _ h := lt_asymm h
  trans _ _ _ hb hab hbc := not_lt_trans hb hbc hab

theorem gt_decisive : Decisive fun a b => b.lt a where
  asymm _ _ h := lt_asymm h
  trans _ _ _ hb hab hbc := not_lt_trans hb hab hbc

theorem not_better_best {better : Number → Number → Bool} (hbetter : Decisive better)
    {first : Number} {rest : List Number} (h : ∀ n ∈ first :: rest, n.isNaN = false) :
    ∀ n ∈ first :: rest, better n (best better first rest) = false := by
  induction rest generalizing first with
  | nil =>
      intro n hn
      rw [List.mem_singleton.mp hn]
      exact hbetter.irrefl first
  | cons second rest ih =>
      obtain ⟨hfirst, hrest⟩ := List.forall_mem_cons.mp h
      obtain ⟨hsecond, hrest⟩ := List.forall_mem_cons.mp hrest
      -- The better of the first two is what the others are held against.
      have hkept : ∀ kept, kept.isNaN = false →
          better first kept = false → better second kept = false →
          ∀ n ∈ first :: second :: rest, better n (best better kept rest) = false := by
        intro kept hnan h1 h2 n hn
        have hall := ih (List.forall_mem_cons.mpr ⟨hnan, hrest⟩)
        have hself := hall kept List.mem_cons_self
        rcases List.mem_cons.mp hn with rfl | hn
        · exact hbetter.trans _ kept _ hnan h1 hself
        · rcases List.mem_cons.mp hn with rfl | hn
          · exact hbetter.trans _ kept _ hnan h2 hself
          · exact hall n (List.mem_cons_of_mem _ hn)
      show ∀ n ∈ _, better n (best better (if better second first then second else first) rest)
        = false
      split
      · next hsb => exact hkept second hsecond (hbetter.asymm _ _ hsb) (hbetter.irrefl second)
      · next hsb =>
          exact hkept first hfirst (hbetter.irrefl first) (Bool.eq_false_iff.mpr hsb)

theorem least_eq_best (first : Number) (rest : List Number) :
    least first rest = best lt first rest := rfl

theorem greatest_eq_best (first : Number) (rest : List Number) :
    greatest first rest = best (fun a b => b.lt a) first rest := rfl

/-- A number that is met in a list and before which none of the list is, as long as
all of them have places. -/
structure IsLeast (n : Number) (numbers : List Number) : Prop where
  mem : n ∈ numbers
  le : (∀ m ∈ numbers, m.isNaN = false) → ∀ m ∈ numbers, m.lt n = false

/-- A number that is met in a list and that is before none of the list, as long as
all of them have places. -/
structure IsGreatest (n : Number) (numbers : List Number) : Prop where
  mem : n ∈ numbers
  ge : (∀ m ∈ numbers, m.isNaN = false) → ∀ m ∈ numbers, n.lt m = false

theorem isLeast_least (first : Number) (rest : List Number) :
    IsLeast (least first rest) (first :: rest) := by
  rw [least_eq_best]
  exact ⟨best_mem _ _ _, not_better_best lt_decisive⟩

theorem isGreatest_greatest (first : Number) (rest : List Number) :
    IsGreatest (greatest first rest) (first :: rest) := by
  rw [greatest_eq_best]
  exact ⟨best_mem _ _ _, not_better_best gt_decisive⟩

end Number

end Cardfolio
