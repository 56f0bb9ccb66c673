import Mathlib.Data.List.Nodup
import Mathlib.Data.List.Perm.Subperm

/-! # Waiters that are served once

A list of pending entries has a waiter in each entry, and a second list remembers which
waiters were served. Entries leave the first list, and some of their waiters enter the
second one.
-/

namespace FastMcp.WaiterLists

variable {Entry Waiter : Type}

/-- The waiters that remain or were served are among those that were pending or served before. -/
theorem subperm_of_retired (waiter : Entry → Waiter) (gone : Entry → Bool) {pending : List Entry}
    {served : List Waiter} (sent : List Waiter)
    (sub : served.Sublist ((pending.filter gone).map waiter)) :
    ((pending.filter (!gone ·)).map waiter ++ (sent ++ served)).Subperm
      (pending.map waiter ++ sent) := by
  have split : ((pending.filter (!gone ·)).map waiter ++ (pending.filter gone).map waiter).Perm
      (pending.map waiter) := by
    rw [← List.map_append]
    exact (List.perm_append_comm.trans (List.filter_append_perm gone pending)).map waiter
  refine List.Subperm.trans ?_ (split.append_right sent).subperm
  rw [List.append_assoc]
  exact (List.Perm.append_left _ List.perm_append_comm).subperm.trans
    ((sub.append (.refl _)).append_left _).subperm

theorem nodup_of_subperm {served before : List Waiter} (among : served.Subperm before)
    (once : before.Nodup) : served.Nodup := by
  obtain ⟨list, perm, sub⟩ := among
  exact perm.nodup_iff.mp (once.sublist sub)

/-- The entry that a search finds is among those that it looks for. -/
theorem singleton_sublist_filter {test : Entry → Bool} {pending : List Entry} {entry : Entry}
    (found : pending.find? test = some entry) : [entry].Sublist (pending.filter test) := by
  rw [List.singleton_sublist, List.mem_filter]
  exact ⟨List.mem_of_find?_eq_some found, List.find?_some found⟩

/-- A new waiter joins the pending ones. -/
theorem nodup_snoc {waiter : Waiter} {pending sent : List Waiter} (fresh : waiter ∉ pending ++ sent)
    (once : (pending ++ sent).Nodup) : (pending ++ [waiter] ++ sent).Nodup := by
  rw [List.append_assoc, List.singleton_append, List.nodup_middle, List.nodup_cons]
  exact ⟨fresh, once⟩

end FastMcp.WaiterLists
