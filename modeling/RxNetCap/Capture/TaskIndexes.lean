/-
The three indexes of the task store.

They are kept by different rules: `key_to_id` loses the key of a task that goes
whoever owns the entry, the other two only an entry that leads to that task,
and every update writes its task's entries again. In a store used the way the
manager uses it (`Managed`) no entry is stale: a key or a sid leads to a task
that carries it, a signature to an active one, and to every active task with a
signature its own signature leads (`indexes_agree`).
-/
import RxNetCap.Lib.Index
import RxNetCap.Capture.TaskStore

set_option autoImplicit false

namespace RxNetCap.Capture

open RxNetCap.Tally RxNetCap.Index RxNetCap.Pdef

/-! ## The invariant -/

def CarriesKey (key : CStr) (task : SRxCaptureTask) : Prop := task.key = key

def CarriesSid (sid : CStr) (task : SRxCaptureTask) : Prop := sid ≠ [] ∧ task.sid = sid

def CarriesSignature (signature : CStr) (task : SRxCaptureTask) : Prop :=
  signature ≠ [] ∧ task.signature = signature ∧ is_active_status task.status

/-- The indexes of a table agree with its slots. -/
structure Indexed (table : TaskTable) : Prop where
  key : Leads CarriesKey table.key_to_id table.task
  sid : Leads CarriesSid table.sid_to_id table.task
  signature : Leads CarriesSignature table.signature_to_id table.task
  active : ∀ c task, table.task c = some task → is_active_status task.status →
    task.signature ≠ [] → table.signature_to_id.lookup task.signature = some c

theorem Indexed.empty : Indexed {} where
  key := Leads.empty
  sid := Leads.empty
  signature := Leads.empty
  active c task h := by cases h

/-! ## Erasing entries -/

section Unlink

variable (name : CStr) (capture_id : ℤ) (index : Store CStr ℤ)

theorem unlink_within : Within (unlink name capture_id index) index := by
  unfold unlink
  split
  · exact Within.erase index name
  · exact Within.refl index

/-- The entry of the name does not lead to the task any more. -/
theorem unlink_self (hname : name ≠ []) :
    (unlink name capture_id index).lookup name ≠ some capture_id := by
  intro h
  have hold := unlink_within name capture_id index name capture_id h
  rw [unlink, if_pos ⟨hname, hold⟩, AList.lookup_erase] at h
  cases h

/-- Entries that lead to other tasks stay. -/
theorem unlink_other {c : ℤ} (hc : c ≠ capture_id) {other : CStr}
    (h : index.lookup other = some c) :
    (unlink name capture_id index).lookup other = some c := by
  unfold unlink
  split
  · next howner =>
    have hother : other ≠ name := by
      rintro rfl
      rw [howner.2] at h
      exact hc (Option.some.inj h).symm
    rw [AList.lookup_erase_ne hother]
    exact h
  · exact h

end Unlink

/-! ## The table -/

section Tables

variable {table : TaskTable}

/-- The entry of a key that is erased led to the task that carried it. -/
theorem erase_key_ne {capture_id : ℤ} {old_task : SRxCaptureTask} (h : Indexed table)
    (hold : table.task capture_id = some old_task) (key : CStr) :
    (table.key_to_id.erase old_task.key).lookup key ≠ some capture_id := by
  intro hlook
  obtain ⟨task, htask, hkey⟩ := h.key key _ (Within.erase _ _ _ _ hlook)
  rw [hold] at htask
  obtain rfl := Option.some.inj htask
  obtain rfl : old_task.key = key := hkey
  rw [AList.lookup_erase] at hlook
  cases hlook

theorem unlink_sid_ne {capture_id : ℤ} {old_task : SRxCaptureTask} (h : Indexed table)
    (hold : table.task capture_id = some old_task) (sid : CStr) :
    (unlink old_task.sid capture_id table.sid_to_id).lookup sid ≠ some capture_id := by
  intro hlook
  obtain ⟨task, htask, hname, hsid⟩ := h.sid sid _ (unlink_within _ _ _ _ _ hlook)
  rw [hold] at htask
  obtain rfl := Option.some.inj htask
  subst hsid
  exact unlink_self _ _ _ hname hlook

theorem unlink_signature_ne {capture_id : ℤ} {old_task : SRxCaptureTask} (h : Indexed table)
    (hold : table.task capture_id = some old_task) (signature : CStr) :
    (unlink old_task.signature capture_id table.signature_to_id).lookup signature
      ≠ some capture_id := by
  intro hlook
  obtain ⟨task, htask, hname, hsig, -⟩ :=
    h.signature signature _ (unlink_within _ _ _ _ _ hlook)
  rw [hold] at htask
  obtain rfl := Option.some.inj htask
  subst hsig
  exact unlink_self _ _ _ hname hlook

/-- With the task that goes, the entries that lead to it go. -/
theorem Indexed.remove_task (h : Indexed table) (capture_id : ℤ) :
    Indexed (table.remove_task capture_id).2 := by
  have hfind := (remove_task_task table capture_id).2
  have hothers : ∀ c ≠ capture_id,
      (table.remove_task capture_id).2.task c = table.task c := by
    intro c hc
    rw [hfind c, if_neg hc]
  have hkept : ∀ c task, (table.remove_task capture_id).2.task c = some task →
      c ≠ capture_id ∧ table.task c = some task := by
    intro c task htask
    rw [hfind c] at htask
    split at htask
    · cases htask
    · next hc => exact ⟨hc, htask⟩
  generalize hremoved : (table.remove_task capture_id).2 = removed at hothers hkept
  unfold TaskTable.remove_task at hremoved
  split at hremoved
  · subst hremoved
    exact h
  · next hnull =>
    have hnone : table.task capture_id = none := by
      rw [TaskTable.task, hnull]
      rfl
    subst hremoved
    exact {
      key := h.key.drop hothers (Within.refl _) fun name => h.key.ne hnone name
      sid := h.sid.drop hothers (Within.refl _) fun name => h.sid.ne hnone name
      signature :=
        h.signature.drop hothers (Within.refl _) fun name => h.signature.ne hnone name
      active := fun c task htask => h.active c task (hkept c task htask).2 }
  · next old_task hslot =>
    have hold : table.task capture_id = some old_task := by
      rw [TaskTable.task, hslot]
      rfl
    subst hremoved
    refine ⟨?_, ?_, ?_, ?_⟩
    · exact h.key.drop hothers (Within.erase _ _) (erase_key_ne h hold)
    · exact h.sid.drop hothers (unlink_within _ _ _) (unlink_sid_ne h hold)
    · exact h.signature.drop hothers (unlink_within _ _ _) (unlink_signature_ne h hold)
    · intro c task htask hactive hsig
      obtain ⟨hc, hbefore⟩ := hkept c task htask
      exact unlink_other _ _ _ hc (h.active c task hbefore hactive hsig)

/-- A task that takes a free place, under a signature no active task has. -/
theorem Indexed.add_task (h : Indexed table) {capture_id : ℤ} {key signature sid : CStr}
    {task : SRxCaptureTask} (hkey : task.key = key) (hfree : table.task capture_id = none)
    (hsig : signature ≠ [] → table.signature_to_id.lookup signature = none) :
    Indexed (table.add_task capture_id key signature sid task) := by
  have hself : (table.add_task capture_id key signature sid task).task capture_id
      = some { task with signature, sid } := by
    rw [add_task_task, if_pos rfl]
  have hothers : ∀ c ≠ capture_id,
      (table.add_task capture_id key signature sid task).task c = table.task c := by
    intro c hc
    rw [add_task_task, if_neg hc]
  have hleads : ∀ {carries : CStr → SRxCaptureTask → Prop} {index : Store CStr ℤ},
      Leads carries index table.task →
      Leads carries index (table.add_task capture_id key signature sid task).task :=
    fun hindex => hindex.drop hothers (Within.refl _) (hindex.ne hfree)
  refine ⟨?_, ?_, ?_, ?_⟩
  · exact (hleads h.key).insert hself hkey
  · unfold TaskTable.add_task at hleads hself ⊢
    dsimp only at hleads hself ⊢
    split
    · next hsid => exact (hleads h.sid).insert hself ⟨hsid, rfl⟩
    · exact hleads h.sid
  · unfold TaskTable.add_task at hleads hself ⊢
    dsimp only at hleads hself ⊢
    split
    · next hnew => exact (hleads h.signature).insert hself ⟨hnew.1, rfl, hnew.2⟩
    · exact hleads h.signature
  · intro c other hother hactive hname
    by_cases hc : c = capture_id
    · subst hc
      rw [hself] at hother
      obtain rfl := Option.some.inj hother
      have hnew : signature ≠ [] ∧ is_active_status task.status := ⟨hname, hactive⟩
      simp only [TaskTable.add_task, if_pos hnew]
      exact AList.lookup_insert _
    · rw [hothers c hc] at hother
      have hlook := h.active c other hother hactive hname
      -- the new task has another signature
      have hne : other.signature ≠ signature := by
        intro heq
        rw [heq] at hlook hname
        rw [hsig hname] at hlook
        cases hlook
      simp only [TaskTable.add_task]
      split
      · rw [AList.lookup_insert_ne hne]
        exact hlook
      · exact hlook

/-- A new version of a task under the same names, not active again. -/
theorem Indexed.exchange (h : Indexed table) {capture_id : ℤ}
    {old_task new_task : SRxCaptureTask} (hold : table.task capture_id = some old_task)
    (hkey : new_task.key = old_task.key) (hsignature : new_task.signature = old_task.signature)
    (hsid : new_task.sid = old_task.sid)
    (hmove : is_active_status new_task.status → is_active_status old_task.status) :
    Indexed (table.exchange capture_id new_task) := by
  have hself : (table.exchange capture_id new_task).task capture_id = some new_task := by
    rw [exchange_task, if_pos rfl]
  have hothers : ∀ c ≠ capture_id,
      (table.exchange capture_id new_task).task c = table.task c := by
    intro c hc
    rw [exchange_task, if_neg hc]
  refine ⟨?_, ?_, ?_, ?_⟩
  · refine h.key.update capture_id (Within.refl _) hothers fun name hlook => ?_
    obtain ⟨task, htask, hname⟩ := h.key name _ hlook
    rw [hold] at htask
    obtain rfl := Option.some.inj htask
    exact ⟨new_task, hself, hkey.trans hname⟩
  · have hkept : Leads CarriesSid table.sid_to_id
        (table.exchange capture_id new_task).task := by
      refine h.sid.update capture_id (Within.refl _) hothers fun name hlook => ?_
      obtain ⟨task, htask, hname, hcarries⟩ := h.sid name _ hlook
      rw [hold] at htask
      obtain rfl := Option.some.inj htask
      exact ⟨new_task, hself, hname, hsid.trans hcarries⟩
    by_cases hnew : new_task.sid ≠ []
    · simp only [TaskTable.exchange, TaskTable.reindex, if_pos hnew]
      exact hkept.insert hself ⟨hnew, rfl⟩
    · simp only [TaskTable.exchange, TaskTable.reindex, if_neg hnew]
      exact hkept
  · by_cases hnew : new_task.signature ≠ [] ∧ is_active_status new_task.status
    · have hkept : Leads CarriesSignature table.signature_to_id
          (table.exchange capture_id new_task).task := by
        refine h.signature.update capture_id (Within.refl _) hothers fun name hlook => ?_
        obtain ⟨task, htask, hname, hcarries, -⟩ := h.signature name _ hlook
        rw [hold] at htask
        obtain rfl := Option.some.inj htask
        exact ⟨new_task, hself, hname, hsignature.trans hcarries, hnew.2⟩
      simp only [TaskTable.exchange, TaskTable.reindex, if_pos hnew]
      exact hkept.insert hself ⟨hnew.1, rfl, hnew.2⟩
    · simp only [TaskTable.exchange, TaskTable.reindex, if_neg hnew]
      rw [hsignature]
      exact h.signature.drop hothers (unlink_within _ _ _) (unlink_signature_ne h hold)
  · intro c task htask hactive hname
    by_cases hc : c = capture_id
    · subst hc
      rw [hself] at htask
      obtain rfl := Option.some.inj htask
      simp only [TaskTable.exchange, TaskTable.reindex, if_pos (And.intro hname hactive)]
      exact AList.lookup_insert _
    · rw [hothers c hc] at htask
      have hlook := h.active c task htask hactive hname
      by_cases hnew : new_task.signature ≠ [] ∧ is_active_status new_task.status
      · -- two active tasks would share the signature
        have hne : task.signature ≠ new_task.signature := by
          intro heq
          have hown := h.active capture_id old_task hold (hmove hnew.2) (hsignature ▸ hnew.1)
          rw [← hsignature, ← heq, hlook] at hown
          exact hc (Option.some.inj hown)
        simp only [TaskTable.exchange, TaskTable.reindex, if_pos hnew]
        rw [AList.lookup_insert_ne hne]
        exact hlook
      · simp only [TaskTable.exchange, TaskTable.reindex, if_neg hnew]
        exact unlink_other _ _ _ hc hlook

theorem remove_task_signatures (table : TaskTable) (capture_id : ℤ) :
    Within (table.remove_task capture_id).2.signature_to_id table.signature_to_id := by
  unfold TaskTable.remove_task
  split
  · exact Within.refl _
  · exact Within.refl _
  · exact unlink_within _ _ _

end Tables

/-! ## The evictions -/

section Evictions

variable {mgr : CRxSafeTaskMgr}

theorem drop_task_indexed (h : Indexed mgr.idle) (capture_id : ℤ) :
    Indexed (mgr.drop_task capture_id).idle := by
  rw [drop_task_idle]
  exact h.remove_task capture_id

theorem evict_indexed (h : Indexed mgr.idle) (index : TaskTable → Store CStr ℤ)
    (name : CStr) (capture_id : ℤ) : Indexed (mgr.evict index name capture_id).idle := by
  unfold CRxSafeTaskMgr.evict
  split
  · exact h
  · split
    · exact drop_task_indexed h _
    · exact h

theorem evict_signatures (mgr : CRxSafeTaskMgr) (index : TaskTable → Store CStr ℤ)
    (name : CStr) (capture_id : ℤ) :
    Within (mgr.evict index name capture_id).idle.signature_to_id
      mgr.idle.signature_to_id := by
  unfold CRxSafeTaskMgr.evict
  split
  · exact Within.refl _
  · split
    · rw [drop_task_idle]
      exact remove_task_signatures _ _
    · exact Within.refl _

/-- The active task with a new task's signature is evicted. -/
theorem evict_signature (h : Indexed mgr.idle) {capture_id : ℤ}
    (hfree : mgr.idle.task capture_id = none) (signature : CStr) :
    (mgr.evict TaskTable.signature_to_id signature capture_id).idle.signature_to_id.lookup
      signature = none := by
  unfold CRxSafeTaskMgr.evict
  split
  · next hnone => exact hnone
  · next other hlook =>
    have hother : other ≠ capture_id := by
      rintro rfl
      exact h.signature.ne hfree signature hlook
    rw [if_pos hother, drop_task_idle]
    cases hafter : (mgr.idle.remove_task other).2.signature_to_id.lookup signature with
    | none => rfl
    | some c =>
      -- it would lead to the task that was removed
      have hbefore := remove_task_signatures mgr.idle other signature c hafter
      rw [hlook] at hbefore
      obtain rfl := Option.some.inj hbefore
      have hgone := (remove_task_task mgr.idle other).2 other
      rw [if_pos rfl] at hgone
      exact absurd hafter ((h.remove_task other).signature.ne hgone signature)

theorem evict_names_indexed (h : Indexed mgr.idle) (capture_id : ℤ) (key signature sid : CStr) :
    Indexed (mgr.evict_names capture_id key signature sid).idle := by
  have hkey := evict_indexed h TaskTable.key_to_id key capture_id
  unfold CRxSafeTaskMgr.evict_names
  dsimp only
  split
  · apply evict_indexed
    split
    · exact evict_indexed hkey _ _ _
    · exact hkey
  · split
    · exact evict_indexed hkey _ _ _
    · exact hkey

theorem evict_names_signature (h : Indexed mgr.idle) {capture_id : ℤ}
    (hfree : mgr.idle.task capture_id = none) (key : CStr) {signature : CStr} (sid : CStr)
    (hname : signature ≠ []) :
    (mgr.evict_names capture_id key signature sid).idle.signature_to_id.lookup signature
      = none := by
  have hkey := evict_indexed h TaskTable.key_to_id key capture_id
  have hstill : (mgr.evict TaskTable.key_to_id key capture_id).idle.task capture_id = none := by
    cases htask : (mgr.evict TaskTable.key_to_id key capture_id).idle.task capture_id with
    | none => rfl
    | some task =>
      rw [evict_keeps htask] at hfree
      cases hfree
  have hnone := evict_signature hkey hstill signature
  unfold CRxSafeTaskMgr.evict_names
  dsimp only
  rw [if_pos hname]
  split
  · exact (evict_signatures _ _ _ _).none hnone
  · exact hnone

end Evictions

/-! ## The store -/

/-- The names of a task. -/
def SameNames (new_task old_task : SRxCaptureTask) : Prop :=
  new_task.capture_id = old_task.capture_id ∧ new_task.key = old_task.key ∧
  new_task.signature = old_task.signature ∧ new_task.sid = old_task.sid

/-- The states that a careful user of the store reaches: ids are not used
again, a task is added under its own key, updates leave the names alone and
make no task active that no longer was. `used` are the ids so far. -/
inductive Managed : List ℤ → CRxSafeTaskMgr → Prop where
  | init : Managed [] {}
  | add {used : List ℤ} {mgr : CRxSafeTaskMgr} (h : Managed used mgr) (capture_id : ℤ)
      (key signature sid : CStr) (task : SRxCaptureTask) (fresh : capture_id ∉ used)
      (own_key : task.key = key) :
      Managed (capture_id :: used) (StoreOp.perform mgr (.add capture_id key signature sid task))
  | add_null {used : List ℤ} {mgr : CRxSafeTaskMgr} (h : Managed used mgr) (capture_id : ℤ)
      (key signature sid : CStr) :
      Managed used (StoreOp.perform mgr (.add_null capture_id key signature sid))
  | remove {used : List ℤ} {mgr : CRxSafeTaskMgr} (h : Managed used mgr) (capture_id : ℤ) :
      Managed used (StoreOp.perform mgr (.remove capture_id))
  | update_status {used : List ℤ} {mgr : CRxSafeTaskMgr} (h : Managed used mgr)
      (capture_id : ℤ) (new_status : ECaptureTaskStatus)
      (move : ∀ task, mgr.task capture_id = some task →
        is_active_status new_status → is_active_status task.status) :
      Managed used (StoreOp.perform mgr (.update_status capture_id new_status))
  | update_task {used : List ℤ} {mgr : CRxSafeTaskMgr} (h : Managed used mgr)
      (capture_id : ℤ) (updater : SRxCaptureTask → SRxCaptureTask)
      (names : ∀ task, mgr.task capture_id = some task → SameNames (updater task) task)
      (move : ∀ task, mgr.task capture_id = some task →
        is_active_status (updater task).status → is_active_status task.status) :
      Managed used (StoreOp.perform mgr (.update_task capture_id updater))
  | cleanup {used : List ℤ} {mgr : CRxSafeTaskMgr} (h : Managed used mgr) :
      Managed used (StoreOp.perform mgr .cleanup)

/-- The indexes are true, and no task is there whose id was not used. -/
structure IndexesTrue (used : List ℤ) (mgr : CRxSafeTaskMgr) : Prop where
  indexed : Indexed mgr.curr
  used : ∀ c task, mgr.task c = some task → c ∈ used

section Operations

variable {used : List ℤ} {mgr : CRxSafeTaskMgr} {capture_id : ℤ}

theorem add_task_indexed (h : IndexesTrue used mgr) {key : CStr} (signature sid : CStr)
    {task : SRxCaptureTask} (fresh : capture_id ∉ used) (own_key : task.key = key) :
    IndexesTrue (capture_id :: used)
      (mgr.add_task capture_id key signature sid (some task)).2 := by
  have hfree : mgr.copy_table.idle.task capture_id = none := by
    cases htask : mgr.task capture_id with
    | none => exact htask
    | some task => exact absurd (h.used capture_id task htask) fresh
  have hvacate : mgr.copy_table.vacate capture_id = mgr.copy_table := by
    rw [CRxSafeTaskMgr.vacate, hfree]
  have hcopied : Indexed mgr.copy_table.idle := h.indexed
  have hevicted := evict_names_indexed hcopied capture_id key signature sid
  have hplace : (mgr.copy_table.evict_names capture_id key signature sid).idle.task capture_id
      = none := by
    cases htask : (mgr.copy_table.evict_names capture_id key signature sid).idle.task
        capture_id with
    | none => rfl
    | some task =>
      rw [evict_names_keeps htask] at hfree
      cases hfree
  refine ⟨?_, ?_⟩
  · rw [← hvacate] at hevicted hplace
    refine Indexed.add_task hevicted own_key hplace fun hname => ?_
    rw [hvacate]
    exact evict_names_signature hcopied hfree key sid hname
  · intro c other hother
    by_cases hc : c = capture_id
    · exact hc ▸ List.mem_cons_self
    · have hbefore := add_task_keeps capture_id key signature sid (some task) mgr c hc other hother
      exact List.mem_cons_of_mem _ (h.used c other hbefore)

theorem remove_task_indexed (h : IndexesTrue used mgr) (capture_id : ℤ) :
    IndexesTrue used (mgr.remove_task capture_id) := by
  have hcopied : Indexed mgr.copy_table.idle := h.indexed
  refine ⟨drop_task_indexed hcopied capture_id, fun c task htask => ?_⟩
  have hbefore : (mgr.copy_table.drop_task capture_id).idle.task c = some task := htask
  rw [drop_task_task] at hbefore
  split at hbefore
  · cases hbefore
  · exact h.used c task hbefore

theorem replace_indexed (h : IndexesTrue used mgr) {old_task new_task : SRxCaptureTask}
    (hold : mgr.task capture_id = some old_task) (names : SameNames new_task old_task)
    (move : is_active_status new_task.status → is_active_status old_task.status)
    (stats : TaskStats) : IndexesTrue used (mgr.replace capture_id old_task new_task stats) := by
  obtain ⟨-, hkey, hsignature, hsid⟩ := names
  refine ⟨h.indexed.exchange hold hkey hsignature hsid move, fun c task htask => ?_⟩
  rw [replace_task] at htask
  split at htask
  · next hc => exact h.used c old_task (hc ▸ hold)
  · exact h.used c task htask

end Operations

theorem Managed.indexesTrue {used : List ℤ} {mgr : CRxSafeTaskMgr} (h : Managed used mgr) :
    IndexesTrue used mgr := by
  induction h with
  | init => exact ⟨Indexed.empty, fun c task htask => by cases htask⟩
  | add h capture_id key signature sid task fresh own_key ih =>
    have hnew : IndexesTrue _ (CRxSafeTaskMgr.new_task task _).2 := ⟨ih.indexed, ih.used⟩
    exact add_task_indexed hnew signature sid fresh own_key
  | add_null h capture_id key signature sid ih => exact ih
  | remove h capture_id ih => exact remove_task_indexed ih capture_id
  | @update_status used mgr h capture_id new_status move ih =>
    simp only [StoreOp.perform, CRxSafeTaskMgr.update_status]
    cases hold : mgr.task capture_id with
    | none => exact ih
    | some old_task =>
      have names : SameNames { old_task with status := new_status } old_task :=
        ⟨rfl, rfl, rfl, rfl⟩
      exact replace_indexed ih hold names (move old_task hold) _
  | @update_task used mgr h capture_id updater names move ih =>
    simp only [StoreOp.perform, CRxSafeTaskMgr.update_task]
    cases hold : mgr.task capture_id with
    | none => exact ih
    | some old_task =>
      exact replace_indexed ih hold (names old_task hold) (move old_task hold) _
  | cleanup h ih => exact ⟨ih.indexed, ih.used⟩

/-- **The indexes agree with the slots.** In every state a careful user
reaches, each entry leads to a task that carries its name, an active one where
the name is a signature; and an active task with a signature is the one that
its signature finds. -/
theorem indexes_agree {used : List ℤ} {mgr : CRxSafeTaskMgr} (h : Managed used mgr) :
    (∀ key c, mgr.curr.key_to_id.lookup key = some c →
      ∃ task, mgr.task c = some task ∧ task.key = key) ∧
    (∀ sid c, mgr.curr.sid_to_id.lookup sid = some c →
      ∃ task, mgr.task c = some task ∧ task.sid = sid) ∧
    (∀ signature c, mgr.curr.signature_to_id.lookup signature = some c →
      ∃ task, mgr.task c = some task ∧ task.signature = signature ∧
        is_active_status task.status) ∧
    (∀ c task, mgr.task c = some task → is_active_status task.status → task.signature ≠ [] →
      mgr.query_active_task_by_signature task.signature = some task) := by
  have hindexed := h.indexesTrue.indexed
  refine ⟨hindexed.key, fun sid c hlook => ?_, fun signature c hlook => ?_, ?_⟩
  · obtain ⟨task, htask, -, hsid⟩ := hindexed.sid sid c hlook
    exact ⟨task, htask, hsid⟩
  · obtain ⟨task, htask, -, hcarries⟩ := hindexed.signature signature c hlook
    exact ⟨task, htask, hcarries⟩
  · intro c task htask hactive hname
    have hquery : mgr.query_by TaskTable.signature_to_id task.signature = some task := by
      rw [CRxSafeTaskMgr.query_by, hindexed.active c task htask hactive hname]
      exact htask
    rw [CRxSafeTaskMgr.query_active_task_by_signature, hquery]
    exact if_pos hactive

/-- A capture that was started, after another with its sid. -/
def two_captures : List StoreOp :=
  [.add 1000 ['k'] ['s'] ['d'] { key := ['k'] }, .update_status 1000 .COMPLETED,
    .add 1001 ['l'] ['s'] ['d'] { key := ['l'] }, .update_status 1001 .RUNNING]

theorem two_captures_managed : Managed [1001, 1000] (store_after two_captures) := by
  have hfirst := Managed.init.add 1000 ['k'] ['s'] ['d'] { key := ['k'] } (by decide) rfl
  have hdone := hfirst.update_status 1000 .COMPLETED fun _ _ h => by cases h
  have hsecond := hdone.add 1001 ['l'] ['s'] ['d'] { key := ['l'] } (by decide) rfl
  exact hsecond.update_status 1001 .RUNNING fun task htask _ => by
    obtain rfl := Option.some.inj htask
    rfl

theorem indexes_agree_two_captures :
    ∃ task, (store_after two_captures).task 1001 = some task ∧ task.signature = ['s'] ∧
      (store_after two_captures).query_active_task_by_signature task.signature = some task :=
  ⟨_, rfl, rfl, (indexes_agree two_captures_managed).2.2.2 1001 _ rfl rfl (by decide)⟩

end RxNetCap.Capture
