import Mathlib.Data.List.Basic
import Mathlib.Logic.Function.Basic
import Mathlib.Tactic.Common

/-!
Two ways to keep a set of members. A map may record them under an injective key. A
list may hold an entry of each, when the members know their positions: pushing,
setting and removing keep this if they learn the new ones, and removal fills the gap
with the last entry, so that just its owner moves.
-/
namespace MuduoServer

variable {C K α : Type*}

/-- The map `m` holds the members of `P`, each under its key. -/
def Records (key : C → K) (m : K → Option C) (P : C → Prop) : Prop :=
  ∀ n c, m n = some c ↔ key c = n ∧ P c

namespace Records

variable {key : C → K} {m : K → Option C} {P P' : C → Prop} {c : C}

theorem empty (h : ∀ c, ¬ P c) : Records key (fun _ => none) P := by
  intro n c
  simp [h c]

theorem congr (h : Records key m P) (hP : ∀ c, P' c ↔ P c) : Records key m P' := by
  intro n c
  rw [h n c, hP c]

theorem of_mem (h : Records key m P) (hc : P c) : m (key c) = some c :=
  (h _ _).mpr ⟨rfl, hc⟩

theorem of_not (hkey : Function.Injective key) (h : Records key m P) (hc : ¬ P c) :
    m (key c) = none := by
  by_contra hne
  obtain ⟨d, hd⟩ := Option.ne_none_iff_exists'.mp hne
  obtain ⟨heq, hold⟩ := (h _ _).mp hd
  exact hc (hkey heq ▸ hold)

/-- Writing at the key of one member decides just whether it is recorded. -/
theorem update [DecidableEq K] (hkey : Function.Injective key) (h : Records key m P)
    {o : Option C} (ho : ∀ d, o = some d ↔ d = c ∧ P' d)
    (hother : ∀ d, d ≠ c → (P' d ↔ P d)) :
    Records key (Function.update m (key c) o) P' := by
  intro n d
  by_cases hn : n = key c
  · subst hn
    rw [Function.update_self, ho, hkey.eq_iff]
  · rw [Function.update_of_ne hn, h n d]
    by_cases hd : d = c
    · subst hd
      simp only [Ne.symm hn, false_and]
    · rw [hother d hd]

end Records

/-- Exchange entry `k` with the last one and drop it there. -/
def swapPop (l : List α) (k : ℕ) : List α :=
  match l[k]?, l.getLast? with
  | some a, some b => ((l.set k b).set (l.length - 1) a).dropLast
  | _, _ => l

/-- The last entry is exchanged with itself. -/
theorem swapPop_last {l : List α} {k : ℕ} (hk : k < l.length) (hlast : k = l.length - 1) :
    swapPop l k = l.dropLast := by
  have hget : l.getLast? = some l[k] := by
    subst hlast
    rw [List.getLast?_eq_getElem?, List.getElem?_eq_getElem]
  simp [swapPop, List.getElem?_eq_getElem hk, hget, ← hlast]

structure IndexedList (l : List α) (pos : C → Option ℕ) (entry : C → α) : Prop where
  get : ∀ c k, pos c = some k → l[k]? = some (entry c)
  owner : ∀ k, k < l.length → ∃ c, pos c = some k
  inj : ∀ c d k, pos c = some k → pos d = some k → c = d

namespace IndexedList

variable {l : List α} {pos pos' : C → Option ℕ} {entry entry' : C → α} {c : C} {k : ℕ}

theorem nil (entry : C → α) : IndexedList ([] : List α) (fun _ => none) entry where
  get _ _ h := by simp at h
  owner _ h := by simp at h
  inj _ _ _ h := by simp at h

theorem lt_length (h : IndexedList l pos entry) (hc : pos c = some k) : k < l.length := by
  have hget := h.get c k hc
  rw [List.getElem?_eq_some_iff] at hget
  exact hget.1

theorem nodup_map {β : Type*} (h : IndexedList l pos entry) {f : α → β}
    (hf : ∀ c d, f (entry c) = f (entry d) → c = d) : (l.map f).Nodup := by
  rw [List.nodup_iff_pairwise_ne, List.pairwise_map, List.pairwise_iff_getElem]
  intro i j hi hj hij heq
  obtain ⟨c, hc⟩ := h.owner i hi
  obtain ⟨d, hd⟩ := h.owner j hj
  have hgetc := h.get c i hc
  have hgetd := h.get d j hd
  rw [List.getElem?_eq_getElem hi, Option.some.injEq] at hgetc
  rw [List.getElem?_eq_getElem hj, Option.some.injEq] at hgetd
  rw [hgetc, hgetd] at heq
  obtain rfl := hf c d heq
  have hsame := Option.some.inj (hc.symm.trans hd)
  omega

theorem push {a : α} (h : IndexedList l pos entry) (hc : pos c = none)
    (hnew : pos' c = some l.length) (ha : entry' c = a)
    (hother : ∀ d, d ≠ c → pos' d = pos d ∧ entry' d = entry d) :
    IndexedList (l ++ [a]) pos' entry' := by
  subst ha
  have hpos : ∀ d, d ≠ c → pos' d = pos d := fun d hd => (hother d hd).1
  have hentry : ∀ d, d ≠ c → entry' d = entry d := fun d hd => (hother d hd).2
  constructor
  · intro d k hd
    by_cases hdc : d = c
    · subst hdc
      obtain rfl := Option.some.inj (hnew.symm.trans hd)
      exact List.getElem?_concat_length
    · rw [hpos d hdc] at hd
      rw [List.getElem?_append_left (h.lt_length hd), hentry d hdc]
      exact h.get d k hd
  · intro k hk
    rw [List.length_append, List.length_singleton] at hk
    rcases Nat.lt_succ_iff_lt_or_eq.mp hk with hlt | rfl
    · obtain ⟨d, hd⟩ := h.owner k hlt
      have hdc : d ≠ c := by
        rintro rfl
        rw [hc] at hd
        cases hd
      exact ⟨d, (hpos d hdc).trans hd⟩
    · exact ⟨c, hnew⟩
  · intro d e k hd he
    by_cases hdc : d = c <;> by_cases hec : e = c
    · exact hdc.trans hec.symm
    · subst hdc
      obtain rfl := Option.some.inj (hnew.symm.trans hd)
      rw [hpos e hec] at he
      exact absurd (h.lt_length he) (by omega)
    · subst hec
      obtain rfl := Option.some.inj (hnew.symm.trans he)
      rw [hpos d hdc] at hd
      exact absurd (h.lt_length hd) (by omega)
    · rw [hpos d hdc] at hd
      rw [hpos e hec] at he
      exact h.inj d e k hd he

theorem set {a : α} (h : IndexedList l pos entry) (hc : pos c = some k) (ha : entry' c = a)
    (hpos : ∀ d, pos' d = pos d) (hentry : ∀ d, d ≠ c → entry' d = entry d) :
    IndexedList (l.set k a) pos' entry' := by
  subst ha
  obtain rfl : pos' = pos := funext hpos
  constructor
  · intro d j hd
    by_cases hdc : d = c
    · subst hdc
      obtain rfl := Option.some.inj (hc.symm.trans hd)
      exact List.getElem?_set_self (h.lt_length hc)
    · have hne : k ≠ j := by
        rintro rfl
        exact hdc (h.inj d c k hd hc)
      rw [List.getElem?_set_ne hne, hentry d hdc]
      exact h.get d j hd
  · intro j hj
    exact h.owner j (by simpa using hj)
  · exact h.inj

theorem swapPop_getElem? {j : ℕ} (hk : k < l.length) (hj : j + 1 < l.length) :
    (swapPop l k)[j]? = if j = k then l[l.length - 1]? else l[j]? := by
  have hlast : l.getLast? = some l[l.length - 1] := by
    rw [List.getLast?_eq_getElem?, List.getElem?_eq_getElem]
  have hlen : ((l.set k l[l.length - 1]).set (l.length - 1) l[k]).length =
      l.length := by simp
  simp only [swapPop, List.getElem?_eq_getElem hk, hlast, List.getElem?_dropLast, hlen]
  rw [if_pos (by omega), List.getElem?_set_ne (by omega)]
  split
  · rename_i hjk
    subst hjk
    rw [List.getElem?_set_self hk, List.getElem?_eq_getElem]
  · rename_i hjk
    exact List.getElem?_set_ne (fun heq => hjk heq.symm)

theorem swapPop_length (hk : k < l.length) : (swapPop l k).length = l.length - 1 := by
  have hlast : l.getLast? = some l[l.length - 1] := by
    rw [List.getLast?_eq_getElem?, List.getElem?_eq_getElem]
  simp [swapPop, List.getElem?_eq_getElem hk, hlast]

/-- Owner `c` leaves, and the owner of the last entry learns the position of `c`. -/
theorem swapPop (h : IndexedList l pos entry) (hc : pos c = some k) (hgone : pos' c = none)
    (hlast : ∀ d, d ≠ c → pos d = some (l.length - 1) → pos' d = some k)
    (hpos : ∀ d, d ≠ c → pos d ≠ some (l.length - 1) → pos' d = pos d)
    (hentry : ∀ d, d ≠ c → entry' d = entry d) :
    IndexedList (MuduoServer.swapPop l k) pos' entry' := by
  have hk := h.lt_length hc
  -- who has position `j` afterwards had it before, or had the last one
  have hold : ∀ d j, pos' d = some j → d ≠ c ∧ j + 1 < l.length ∧
      pos d = some (if j = k then l.length - 1 else j) := by
    intro d j hd
    have hdc : d ≠ c := by
      rintro rfl
      rw [hgone] at hd
      cases hd
    by_cases hend : pos d = some (l.length - 1)
    · rw [hlast d hdc hend] at hd
      obtain rfl := Option.some.inj hd
      have hne : k ≠ l.length - 1 := by
        rintro heq
        exact hdc (h.inj d c _ hend (heq ▸ hc))
      exact ⟨hdc, by omega, by simpa using hend⟩
    · rw [hpos d hdc hend] at hd
      have hj := h.lt_length hd
      have hne : j ≠ l.length - 1 := by
        rintro rfl
        exact hend hd
      have hjk : j ≠ k := by
        rintro rfl
        exact hdc (h.inj d c _ hd hc)
      exact ⟨hdc, by omega, by rw [if_neg hjk, hd]⟩
  constructor
  · intro d j hd
    obtain ⟨hdc, hj, hd⟩ := hold d j hd
    have hget := h.get d _ hd
    rw [swapPop_getElem? hk hj, hentry d hdc]
    split
    · rename_i hjk
      rwa [if_pos hjk] at hget
    · rename_i hjk
      rwa [if_neg hjk] at hget
  · intro j hj
    rw [swapPop_length hk] at hj
    by_cases hjk : j = k
    · subst hjk
      obtain ⟨d, hd⟩ := h.owner (l.length - 1) (by omega)
      have hdc : d ≠ c := by
        rintro rfl
        have heq := Option.some.inj (hd.symm.trans hc)
        omega
      exact ⟨d, hlast d hdc hd⟩
    · obtain ⟨d, hd⟩ := h.owner j (by omega)
      have hdc : d ≠ c := by
        rintro rfl
        exact hjk (Option.some.inj (hd.symm.trans hc))
      have hend : pos d ≠ some (l.length - 1) := by
        rintro hend
        have heq := Option.some.inj (hd.symm.trans hend)
        omega
      exact ⟨d, (hpos d hdc hend).trans hd⟩
  · intro d e j hd he
    obtain ⟨-, -, hd⟩ := hold d j hd
    obtain ⟨-, -, he⟩ := hold e j he
    exact h.inj d e _ hd he

end IndexedList

end MuduoServer
