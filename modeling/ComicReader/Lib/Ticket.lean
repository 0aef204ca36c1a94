import Mathlib.Logic.Function.Basic
import Mathlib.Data.List.Pairwise
import Mathlib.Data.List.Nodup

/-!
# Numbered requests, of which the latest counts

A desk takes requests for any number of slots. Each request is issued under a
number one above the last, the slot remembers the number of its latest request
and is emptied, and an answer is shown only where its number is the one the
slot remembers. Answers may come in any order and may bring nothing.

A slot then shows the answer of its latest request or nothing at all
(`Serves`), and while that request is out (`Awaits`) nothing that happens at
the desk changes what the slot will come to show: other answers pass it by,
and its own is shown when it comes. `Valid` is the bookkeeping both rest on,
that a number in use is never issued again.
-/

namespace ComicReader.Lib

variable {σ κ β : Type _}

/-- A request that has not been answered. -/
structure Ticket (σ κ : Type _) where
  number : Nat
  slot : σ
  ask : κ
deriving DecidableEq, Repr

/-- What a slot shows, and the number of the request it waits for. -/
structure Slot (κ β : Type _) where
  shown : Option (κ × β)
  number : Option Nat

structure Desk (σ κ β : Type _) where
  last : Nat
  slots : σ → Slot κ β
  waiting : List (Ticket σ κ)

/-- What a slot becomes when its own ticket is answered. An answer that brings
nothing leaves what is shown. -/
def Slot.served (v : Slot κ β) (k : κ) : Option β → Slot κ β
  | some b => ⟨some (k, b), none⟩
  | none => ⟨v.shown, none⟩

@[simp] theorem Slot.number_served {v : Slot κ β} {k : κ} {res : Option β} :
    (v.served k res).number = none := by
  cases res <;> rfl

namespace Desk

/-- Numbers in use are at most the last one and differ, and a slot that waits
for a number shows nothing and has that ticket out. -/
structure Valid (d : Desk σ κ β) : Prop where
  le_last : ∀ t ∈ d.waiting, t.number ≤ d.last
  distinct : (d.waiting.map Ticket.number).Nodup
  held : ∀ s n, (d.slots s).number = some n →
    (d.slots s).shown = none ∧
      ∃ t ∈ d.waiting, t.number = n ∧ t.slot = s

/-- The slot's latest request was for `k`: what it shows, or waits for, is the
answer to a request for `k`. -/
structure Serves (d : Desk σ κ β) (s : σ) (k : κ) : Prop where
  shown : ∀ c ∈ (d.slots s).shown, c.1 = k
  number : ∀ t ∈ d.waiting, t.slot = s →
    (d.slots s).number = some t.number → t.ask = k

/-- The ticket is out, and its slot waits for it. -/
structure Awaits (d : Desk σ κ β) (t : Ticket σ κ) : Prop where
  out : t ∈ d.waiting
  slot : d.slots t.slot = ⟨none, some t.number⟩

/-- Tickets that are out are told apart by their numbers. -/
theorem Valid.eq_of_number {d : Desk σ κ β} (hV : d.Valid)
    {t t' : Ticket σ κ} (ht : t ∈ d.waiting) (ht' : t' ∈ d.waiting)
    (h : t.number = t'.number) : t = t' :=
  List.inj_on_of_nodup_map hV.distinct ht ht' h

/-! ## A request is issued -/

section Issue

variable [DecidableEq σ] {d : Desk σ κ β} {s s' : σ} {k k' : κ}
  {t : Ticket σ κ}

/-- The ticket that `issue` writes. -/
def issued (d : Desk σ κ β) (s : σ) (k : κ) : Ticket σ κ :=
  ⟨d.last + 1, s, k⟩

def issue (d : Desk σ κ β) (s : σ) (k : κ) : Desk σ κ β where
  last := d.last + 1
  slots := Function.update d.slots s ⟨none, some (d.last + 1)⟩
  waiting := d.waiting ++ [d.issued s k]

@[simp] theorem slots_issue_self : (d.issue s k).slots s =
    ⟨none, some (d.last + 1)⟩ := by
  simp [issue]

theorem slots_issue_of_ne (h : s' ≠ s) :
    (d.issue s k).slots s' = d.slots s' := by
  simp [issue, h]

theorem mem_issue : t ∈ (d.issue s k).waiting ↔
    t ∈ d.waiting ∨ t = d.issued s k := by
  rw [issue, List.mem_append, List.mem_singleton]

theorem Valid.issue (hV : d.Valid) : (d.issue s k).Valid := by
  refine ⟨?_, ?_, ?_⟩
  · intro t ht
    show t.number ≤ d.last + 1
    rcases mem_issue.mp ht with ht | rfl
    · exact Nat.le_succ_of_le (hV.le_last t ht)
    · exact Nat.le_refl _
  · show ((d.waiting ++ [d.issued s k]).map Ticket.number).Nodup
    rw [List.map_append, List.nodup_append]
    refine ⟨hV.distinct, List.nodup_singleton _, ?_⟩
    intro n hn m hm hnm
    obtain ⟨t, ht, rfl⟩ := List.mem_map.mp hn
    obtain rfl : m = d.last + 1 := by simpa [issued] using hm
    have := hV.le_last t ht
    omega
  · intro s' n hn
    by_cases hs : s' = s
    · subst hs
      rw [slots_issue_self] at hn ⊢
      exact ⟨rfl, d.issued s' k, mem_issue.mpr (Or.inr rfl),
        Option.some.inj hn, rfl⟩
    · rw [slots_issue_of_ne hs] at hn ⊢
      obtain ⟨hshown, t, ht, hnum, hslot⟩ := hV.held s' n hn
      exact ⟨hshown, t, mem_issue.mpr (Or.inl ht), hnum, hslot⟩

theorem Valid.serves_issue (hV : d.Valid) : (d.issue s k).Serves s k := by
  refine ⟨by simp, ?_⟩
  intro t ht _ hnum
  rw [slots_issue_self, Option.some.injEq] at hnum
  rcases mem_issue.mp ht with ht | rfl
  · have := hV.le_last t ht
    omega
  · rfl

theorem Serves.issue_other (h : d.Serves s k) (hne : s ≠ s') :
    (d.issue s' k').Serves s k := by
  refine ⟨?_, ?_⟩
  · rw [slots_issue_of_ne hne]
    exact h.shown
  · intro t ht hslot hnum
    rw [slots_issue_of_ne hne] at hnum
    rcases mem_issue.mp ht with ht | rfl
    · exact h.number t ht hslot hnum
    · exact absurd hslot.symm hne

theorem awaits_issue : (d.issue s k).Awaits (d.issued s k) where
  out := mem_issue.mpr (Or.inr rfl)
  slot := slots_issue_self

theorem Awaits.issue_other (h : d.Awaits t) (hne : t.slot ≠ s') :
    (d.issue s' k').Awaits t where
  out := mem_issue.mpr (Or.inl h.out)
  slot := by rw [slots_issue_of_ne hne, h.slot]

end Issue

/-! ## An answer arrives -/

section Answer

variable [DecidableEq σ] [DecidableEq κ] {d : Desk σ κ β} {s : σ} {k : κ}
  {t t' : Ticket σ κ} {res : Option β}

def answer (d : Desk σ κ β) (t : Ticket σ κ) (res : Option β) :
    Desk σ κ β where
  last := d.last
  slots :=
    if (d.slots t.slot).number = some t.number then
      Function.update d.slots t.slot ((d.slots t.slot).served t.ask res)
    else d.slots
  waiting := d.waiting.erase t

theorem slots_answer_own (h : (d.slots t.slot).number = some t.number) :
    (d.answer t res).slots t.slot = (d.slots t.slot).served t.ask res := by
  simp [answer, h]

theorem slots_answer_other
    (h : s = t.slot → (d.slots s).number ≠ some t.number) :
    (d.answer t res).slots s = d.slots s := by
  unfold answer
  by_cases hown : (d.slots t.slot).number = some t.number
  · have hne : s ≠ t.slot := fun hs => h hs (hs ▸ hown)
    simp [hown, hne]
  · simp [hown]

theorem Valid.answer (hV : d.Valid) : (d.answer t res).Valid := by
  refine ⟨?_, ?_, ?_⟩
  · intro t' ht'
    exact hV.le_last t' (List.mem_of_mem_erase ht')
  · exact hV.distinct.sublist (List.erase_sublist.map _)
  · intro s n hn
    by_cases hown : s = t.slot ∧ (d.slots s).number = some t.number
    · obtain ⟨rfl, hnum⟩ := hown
      rw [slots_answer_own hnum, Slot.number_served] at hn
      cases hn
    · have hother : s = t.slot → (d.slots s).number ≠ some t.number :=
        fun hs hnum => hown ⟨hs, hnum⟩
      rw [slots_answer_other hother] at hn ⊢
      obtain ⟨hshown, t', ht', hnum, hslot⟩ := hV.held s n hn
      refine ⟨hshown, t', ?_, hnum, hslot⟩
      have hne : t' ≠ t := by
        rintro rfl
        exact hother hslot.symm (hnum ▸ hn)
      exact (List.mem_erase_of_ne hne).mpr ht'

theorem Serves.answer (h : d.Serves s k) (ht : t ∈ d.waiting) :
    (d.answer t res).Serves s k := by
  by_cases hown : s = t.slot ∧ (d.slots s).number = some t.number
  · obtain ⟨rfl, hnum⟩ := hown
    refine ⟨?_, ?_⟩
    · rw [slots_answer_own hnum]
      intro c hc
      cases res with
      | none => exact h.shown c hc
      | some b =>
          obtain rfl := Option.some.inj hc
          exact h.number t ht rfl hnum
    · intro t' _ _ hnum'
      rw [slots_answer_own hnum, Slot.number_served] at hnum'
      cases hnum'
  · have hother : s = t.slot → (d.slots s).number ≠ some t.number :=
      fun hs hnum => hown ⟨hs, hnum⟩
    refine ⟨?_, ?_⟩
    · rw [slots_answer_other hother]
      exact h.shown
    · intro t' ht' hslot hnum
      rw [slots_answer_other hother] at hnum
      exact h.number t' (List.mem_of_mem_erase ht') hslot hnum

theorem Awaits.answer_other (h : d.Awaits t) (hV : d.Valid)
    (ht' : t' ∈ d.waiting) (hne : t' ≠ t) : (d.answer t' res).Awaits t where
  out := (List.mem_erase_of_ne hne.symm).mpr h.out
  slot := by
    rw [slots_answer_other, h.slot]
    intro _ hnum
    rw [h.slot, Option.some.injEq] at hnum
    exact hne (hV.eq_of_number ht' h.out hnum.symm)

theorem Awaits.answer_own (h : d.Awaits t) :
    (d.answer t res).slots t.slot = ⟨res.map (Prod.mk t.ask), none⟩ := by
  rw [slots_answer_own (by rw [h.slot]), h.slot]
  cases res <;> rfl

/-- A slot that waits for nothing keeps what it shows until it asks again. -/
theorem slots_answer_of_none (h : (d.slots s).number = none) :
    (d.answer t res).slots s = d.slots s := by
  refine slots_answer_other fun _ hnum => ?_
  rw [h] at hnum
  cases hnum

end Answer

end Desk

end ComicReader.Lib
