/-
Codes that can be read back: the words of two values can only be the front of
one text when the values are the same.

Whether a word can be read often depends on what stands behind it: a number
ends where something stands that is no digit. `Readable P R f` says that the
words of `f`, for values that satisfy `P`, can be read in front of texts that
satisfy `R`. Codes are put together by `Readable.append`, `Readable.until` for
words symbol by symbol with an end mark, and `Readable.joined` for lists with a
separator.
-/
import Mathlib.Data.List.Basic

set_option autoImplicit false

namespace RxNetCap.Codes

variable {α β χ : Type} {P : α → Prop} {R R' : List χ → Prop} {f : α → List χ}

/-- The words of `f` can be read in front of texts that satisfy `R`. -/
def Readable (P : α → Prop) (R : List χ → Prop) (f : α → List χ) : Prop :=
  ∀ a b s t, P a → P b → R s → R t → f a ++ s = f b ++ t → a = b ∧ s = t

/-- Any text. -/
def Anything : List χ → Prop := fun _ => True

/-- A text whose first symbol is one of some kind. -/
def Starts (p : χ → Prop) (text : List χ) : Prop := ∃ c rest, text = c :: rest ∧ p c

theorem Starts.cons {p : χ → Prop} {c : χ} (h : p c) (rest : List χ) : Starts p (c :: rest) :=
  ⟨c, rest, rfl, h⟩

theorem Starts.append {p : χ → Prop} {text : List χ} (h : Starts p text) (more : List χ) :
    Starts p (text ++ more) := by
  obtain ⟨c, rest, rfl, hc⟩ := h
  exact .cons hc (rest ++ more)

theorem Readable.mono {P' : α → Prop} (h : Readable P R f) (hP : ∀ a, P' a → P a)
    (hR : ∀ s, R' s → R s) : Readable P' R' f :=
  fun a b s t ha hb hs ht => h a b s t (hP a ha) (hP b hb) (hR s hs) (hR t ht)

/-- Two texts that begin alike have a first symbol of both kinds. -/
theorem Starts.same {p q : χ → Prop} {u v s t : List χ} (hu : Starts p u) (hv : Starts q v)
    (h : u ++ s = v ++ t) : ∃ c, p c ∧ q c := by
  obtain ⟨c, rest, rfl, hc⟩ := hu
  obtain ⟨d, rest', rfl, hd⟩ := hv
  exact ⟨c, hc, (List.cons.inj h).1 ▸ hd⟩

/-- A decoder reads the words. -/
theorem Readable.of_decoder (decode : List χ → Option (α × List χ))
    (h : ∀ a s, P a → R s → decode (f a ++ s) = some (a, s)) : Readable P R f := by
  intro a b s t ha hb hs ht hword
  have hdecode := h a s ha hs
  rw [hword, h b t hb ht] at hdecode
  obtain ⟨rfl, rfl⟩ := Prod.mk.inj (Option.some.inj hdecode)
  exact ⟨rfl, rfl⟩

/-- Words that can be read at the end of a text are different. -/
theorem Readable.inj (h : Readable P R f) (hend : R []) {a b : α} (ha : P a) (hb : P b)
    (hword : f a = f b) : a = b :=
  (h a b [] [] ha hb hend hend (by rw [hword])).1

/-- A word between marks that are always there. -/
theorem Readable.cons (h : Readable P R f) (c : χ) : Readable P R fun a => c :: f a :=
  fun a b s t ha hb hs ht hword => h a b s t ha hb hs ht (List.cons.inj hword).2

/-- One word behind another: the first must be readable in front of the second. -/
theorem Readable.append {Q : β → Prop} {g : β → List χ} {S : List χ → Prop}
    (hf : Readable P S f) (hg : Readable Q R g) (hbetween : ∀ b s, Q b → R s → S (g b ++ s)) :
    Readable (fun pair : α × β => P pair.1 ∧ Q pair.2) R fun pair => f pair.1 ++ g pair.2 := by
  rintro ⟨a, b⟩ ⟨a', b'⟩ s t ⟨ha, hb⟩ ⟨ha', hb'⟩ hs ht hword
  simp only [List.append_assoc] at hword
  obtain ⟨rfl, hrest⟩ := hf a a' _ _ ha ha' (hbetween b s hb hs) (hbetween b' t hb' ht) hword
  obtain ⟨rfl, hst⟩ := hg b b' s t hb hb' hs ht hrest
  exact ⟨rfl, hst⟩

/-- Words of symbols of one kind, in front of a symbol of another. -/
theorem readable_run {p : χ → Prop} (hf : ∀ a b, P a → P b → f a = f b → a = b)
    (hp : ∀ a, P a → ∀ c ∈ f a, p c) : Readable P (Starts fun c => ¬ p c) f := by
  -- the two runs end at the same place
  have hrun : ∀ (u v s t : List χ), (∀ c ∈ u, p c) → (∀ c ∈ v, p c) →
      Starts (fun c => ¬ p c) s → Starts (fun c => ¬ p c) t → u ++ s = v ++ t →
      u = v ∧ s = t := by
    intro u
    induction u with
    | nil =>
      intro v s t _ hv hs _ h
      cases v with
      | nil => exact ⟨rfl, h⟩
      | cons c v =>
        obtain ⟨d, rest, rfl, hd⟩ := hs
        exact absurd ((List.cons.inj h).1 ▸ hv c List.mem_cons_self) hd
    | cons c u ih =>
      intro v s t hu hv hs ht h
      cases v with
      | nil =>
        obtain ⟨d, rest, rfl, hd⟩ := ht
        exact absurd ((List.cons.inj h).1 ▸ hu c List.mem_cons_self) hd
      | cons d v =>
        obtain ⟨rfl, hrest⟩ := List.cons.inj h
        obtain ⟨rfl, hst⟩ := ih v s t (fun x hx => hu x (List.mem_cons_of_mem _ hx))
          (fun x hx => hv x (List.mem_cons_of_mem _ hx)) hs ht hrest
        exact ⟨rfl, hst⟩
  intro a b s t ha hb hs ht h
  obtain ⟨hword, hst⟩ := hrun (f a) (f b) s t (hp a ha) (hp b hb) hs ht h
  exact ⟨hf a b ha hb hword, hst⟩

/-- A text ends at the first mark behind it. -/
theorem cut_inj {mark : χ} {u v s t : List χ} (hu : mark ∉ u) (hv : mark ∉ v)
    (h : u ++ mark :: s = v ++ mark :: t) : u = v ∧ s = t := by
  have hread : Readable (fun u : List χ => mark ∉ u) (Starts fun c => ¬ c ≠ mark) fun u => u :=
    readable_run (fun _ _ _ _ h => h) fun _ hu _ hc heq => hu (heq ▸ hc)
  have hmark : ∀ s : List χ, Starts (fun c => ¬ c ≠ mark) (mark :: s) :=
    fun s => .cons (fun h => h rfl) s
  obtain ⟨rfl, hrest⟩ := hread u v _ _ hu hv (hmark s) (hmark t) h
  exact ⟨rfl, (List.cons.inj hrest).2⟩

/-! ## Texts with an end mark -/

/-- A text symbol by symbol, up to a mark. -/
def spelled (mark : χ) (f : α → List χ) (text : List α) : List χ := text.flatMap f ++ [mark]

theorem spelled_cons (mark : χ) (f : α → List χ) (a : α) (text : List α) :
    spelled mark f (a :: text) = f a ++ spelled mark f text := by
  rw [spelled, List.flatMap_cons, List.append_assoc, spelled]

/-- It can be read when no symbol's word begins with the mark. -/
theorem Readable.until {mark : χ} (hf : Readable P Anything f)
    (hmark : ∀ a, P a → Starts (· ≠ mark) (f a)) :
    Readable (fun text : List α => ∀ a ∈ text, P a) Anything (spelled mark f) := by
  have hnil : spelled mark f [] = [mark] := rfl
  intro text
  induction text with
  | nil =>
    intro text' s t _ htext' _ _ h
    cases text' with
    | nil => exact ⟨rfl, (List.cons.inj h).2⟩
    | cons b text' =>
      obtain ⟨c, rest, hb, hc⟩ := hmark b (htext' b List.mem_cons_self)
      rw [hnil, spelled_cons, hb] at h
      exact absurd (List.cons.inj h).1.symm hc
  | cons a text ih =>
    intro text' s t htext htext' _ _ h
    cases text' with
    | nil =>
      obtain ⟨c, rest, ha, hc⟩ := hmark a (htext a List.mem_cons_self)
      rw [hnil, spelled_cons, ha] at h
      exact absurd (List.cons.inj h).1 hc
    | cons b text' =>
      rw [spelled_cons, spelled_cons, List.append_assoc, List.append_assoc] at h
      obtain ⟨rfl, hrest⟩ := hf a b _ _ (htext a List.mem_cons_self)
        (htext' b List.mem_cons_self) trivial trivial h
      obtain ⟨rfl, hst⟩ := ih text' s t (fun x hx => htext x (List.mem_cons_of_mem _ hx))
        (fun x hx => htext' x (List.mem_cons_of_mem _ hx)) trivial trivial hrest
      exact ⟨rfl, hst⟩

/-! ## Lists -/

/-- The words of a list with `sep` between them and `close` behind. -/
def joined (sep close : χ) (f : α → List χ) (list : List α) : List χ :=
  [sep].intercalate (list.map f) ++ [close]

theorem joined_cons (sep close : χ) (f : α → List χ) (a : α) (list : List α) :
    joined sep close f (a :: list)
      = f a ++ (if list = [] then [close] else sep :: joined sep close f list) := by
  cases list with
  | nil => simp [joined]
  | cons b list => simp [joined, List.intercalate_cons_cons]

theorem Readable.joined {sep close : χ} (hne : sep ≠ close)
    (hf : Readable P (Starts fun c => c = sep ∨ c = close) f)
    (hclose : ∀ a, P a → Starts (· ≠ close) (f a)) :
    Readable (fun list : List α => ∀ a ∈ list, P a) Anything (joined sep close f) := by
  have hnil : Codes.joined sep close f [] = [close] := rfl
  have hbehind : ∀ (list : List α) (s : List χ), Starts (fun c => c = sep ∨ c = close)
      ((if list = [] then [close] else sep :: Codes.joined sep close f list) ++ s) := by
    intro list s
    split
    · exact .cons (.inr rfl) s
    · exact .cons (.inl rfl) _
  intro list
  induction list with
  | nil =>
    intro list' s t _ hlist' _ _ h
    cases list' with
    | nil => exact ⟨rfl, (List.cons.inj h).2⟩
    | cons b list' =>
      obtain ⟨c, rest, hb, hc⟩ := hclose b (hlist' b List.mem_cons_self)
      rw [hnil, joined_cons, hb] at h
      exact absurd (List.cons.inj h).1.symm hc
  | cons a list ih =>
    intro list' s t hlist hlist' _ _ h
    cases list' with
    | nil =>
      obtain ⟨c, rest, ha, hc⟩ := hclose a (hlist a List.mem_cons_self)
      rw [hnil, joined_cons, ha] at h
      exact absurd (List.cons.inj h).1 hc
    | cons b list' =>
      rw [joined_cons, joined_cons, List.append_assoc, List.append_assoc] at h
      obtain ⟨rfl, hrest⟩ := hf a b _ _ (hlist a List.mem_cons_self)
        (hlist' b List.mem_cons_self) (hbehind list s) (hbehind list' t) h
      have hlist₁ : ∀ x ∈ list, P x := fun x hx => hlist x (List.mem_cons_of_mem _ hx)
      have hlist₂ : ∀ x ∈ list', P x := fun x hx => hlist' x (List.mem_cons_of_mem _ hx)
      -- both lists go on, or both end
      by_cases hend : list = []
      · by_cases hend' : list' = []
        · rw [if_pos hend, if_pos hend'] at hrest
          exact ⟨by rw [hend, hend'], (List.cons.inj hrest).2⟩
        · rw [if_pos hend, if_neg hend'] at hrest
          exact absurd (List.cons.inj hrest).1.symm hne
      · by_cases hend' : list' = []
        · rw [if_neg hend, if_pos hend'] at hrest
          exact absurd (List.cons.inj hrest).1 hne
        · rw [if_neg hend, if_neg hend'] at hrest
          obtain ⟨rfl, hst⟩ := ih list' s t hlist₁ hlist₂ trivial trivial (List.cons.inj hrest).2
          exact ⟨rfl, hst⟩

/-! ## Fields that may be absent -/

/-- The entries that have a value. -/
def present (entries : List (α × Option β)) : List (α × β) :=
  entries.filterMap fun entry => entry.2.map fun value => (entry.1, value)

theorem present_append (entries more : List (α × Option β)) :
    present (entries ++ more) = present entries ++ present more := List.filterMap_append

theorem mem_present {entries : List (α × Option β)} {key : α} {value : β}
    (h : (key, value) ∈ present entries) : key ∈ entries.map Prod.fst := by
  obtain ⟨entry, hmem, hvalue⟩ := List.mem_filterMap.mp h
  obtain ⟨_, -, heq⟩ := Option.map_eq_some_iff.mp hvalue
  obtain ⟨rfl, -⟩ := Prod.mk.inj heq
  exact List.mem_map_of_mem hmem

/-- Where the keys are fixed and different, the entries that have a value tell
which these are. -/
theorem present_inj {entries entries' : List (α × Option β)}
    (hkeys : entries.map Prod.fst = entries'.map Prod.fst)
    (hnodup : (entries.map Prod.fst).Nodup) (h : present entries = present entries') :
    entries = entries' := by
  induction entries generalizing entries' with
  | nil => exact (List.map_eq_nil_iff.mp hkeys.symm).symm
  | cons entry entries ih =>
    obtain ⟨key, value⟩ := entry
    cases entries' with
    | nil => cases hkeys
    | cons entry' entries' =>
      obtain ⟨key', value'⟩ := entry'
      obtain ⟨rfl, htails⟩ : key = key' ∧ entries.map Prod.fst = entries'.map Prod.fst :=
        List.cons.inj hkeys
      obtain ⟨hfresh, hrest⟩ : key ∉ entries.map Prod.fst ∧ (entries.map Prod.fst).Nodup :=
        List.nodup_cons.mp hnodup
      have habsent : ∀ v : β, (key, v) ∉ present entries ∧ (key, v) ∉ present entries' :=
        fun v => ⟨fun hmem => hfresh (mem_present hmem),
          fun hmem => hfresh (htails ▸ mem_present hmem)⟩
      have hcons : ∀ (v : Option β) (list : List (α × Option β)), present ((key, v) :: list)
          = (v.map fun value => (key, value)).toList ++ present list := by
        intro v list
        cases v with
        | none => rfl
        | some v => rfl
      rw [hcons, hcons] at h
      cases value with
      | none =>
        cases value' with
        | none => rw [ih htails hrest h]
        | some v' =>
          have hmem : (key, v') ∈ present entries := by
            rw [show present entries = (key, v') :: present entries' from h]
            exact List.mem_cons_self
          exact absurd hmem (habsent v').1
      | some v =>
        cases value' with
        | none =>
          have hmem : (key, v) ∈ present entries' := by
            rw [show present entries' = (key, v) :: present entries from h.symm]
            exact List.mem_cons_self
          exact absurd hmem (habsent v).2
        | some v' =>
          obtain ⟨hfirst, hothers⟩ := List.cons.inj h
          rw [(Prod.mk.inj hfirst).2, ih htails hrest hothers]

end RxNetCap.Codes
