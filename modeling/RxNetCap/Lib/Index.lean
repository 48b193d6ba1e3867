/-
An index beside a store: from a name to the key under which a value that
carries the name is found.

`Leads carries index find` says that no entry is stale: each leads to a value
that carries its name. A change of the store at one key keeps the other entries
as they are, so `Leads.update` only asks about the entries that lead to that
key; `Leads.insert` adds one.
-/
import RxNetCap.Lib.Tally

set_option autoImplicit false

namespace RxNetCap.Index

open RxNetCap.Tally

variable {ν α β : Type} [DecidableEq ν] {carries : ν → β → Prop}
  {index index' index'' : Store ν α} {find find' : α → Option β}

/-! ## Fewer entries -/

/-- All entries of `index'` are entries of `index`. -/
def Within (index' index : Store ν α) : Prop :=
  ∀ name a, index'.lookup name = some a → index.lookup name = some a

theorem Within.refl (index : Store ν α) : Within index index := fun _ _ h => h

theorem Within.erase (index : Store ν α) (name : ν) : Within (index.erase name) index := by
  intro other a h
  by_cases hname : other = name
  · rw [hname, AList.lookup_erase] at h
    cases h
  · rw [AList.lookup_erase_ne hname] at h
    exact h

theorem Within.none (h : Within index' index) {name : ν} (hnone : index.lookup name = none) :
    index'.lookup name = none := by
  cases hlook : index'.lookup name with
  | none => rfl
  | some a =>
    have hold := h name a hlook
    rw [hnone] at hold
    cases hold

/-! ## Entries that lead somewhere -/

/-- Every entry leads to a value that carries its name. -/
def Leads (carries : ν → β → Prop) (index : Store ν α) (find : α → Option β) : Prop :=
  ∀ name a, index.lookup name = some a → ∃ b, find a = some b ∧ carries name b

theorem Leads.empty : Leads carries (∅ : Store ν α) find := by
  intro name a h
  cases h

theorem Leads.insert (h : Leads carries index find) {name : ν} {a : α} {b : β}
    (hfind : find a = some b) (hcarries : carries name b) :
    Leads carries (index.insert name a) find := by
  intro other c hlook
  by_cases hname : other = name
  · rw [hname, AList.lookup_insert] at hlook
    obtain rfl := Option.some.inj hlook
    exact ⟨b, hfind, hname ▸ hcarries⟩
  · rw [AList.lookup_insert_ne hname] at hlook
    exact h other c hlook

/-- A change of the store at one key. -/
theorem Leads.update (h : Leads carries index find) (a : α) (hwithin : Within index' index)
    (hothers : ∀ c ≠ a, find' c = find c)
    (hself : ∀ name, index'.lookup name = some a → ∃ b, find' a = some b ∧ carries name b) :
    Leads carries index' find' := by
  intro name c hlook
  by_cases hc : c = a
  · subst hc
    exact hself name hlook
  · rw [hothers c hc]
    exact h name c (hwithin name c hlook)

/-- A value is dropped, with the entries that lead to it. -/
theorem Leads.drop (h : Leads carries index find) {a : α} (hothers : ∀ c ≠ a, find' c = find c)
    (hwithin : Within index' index) (hnone : ∀ name, index'.lookup name ≠ some a) :
    Leads carries index' find' :=
  h.update a hwithin hothers fun name hlook => absurd hlook (hnone name)

/-- An entry never leads to where nothing is. -/
theorem Leads.ne (h : Leads carries index find) {a : α} (hnone : find a = none) (name : ν) :
    index.lookup name ≠ some a := by
  intro hlook
  obtain ⟨b, hfind, -⟩ := h name a hlook
  rw [hnone] at hfind
  cases hfind

end RxNetCap.Index
