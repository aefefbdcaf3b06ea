import Mathlib.Data.List.Basic

/-!
# Searching with a work list

Starting from some nodes, every node is visited once, and what follows it is put on top of the work list. The search ends
where finitely many nodes can be reached, and it has then visited just these.
-/

namespace Worklist

variable {α : Type} {next : α → List α}

inductive Reaches (next : α → List α) (starts : List α) : α → Prop
  | start {a : α} : a ∈ starts → Reaches next starts a
  | step {a b : α} : Reaches next starts a → b ∈ next a → Reaches next starts b

theorem Reaches.mono {starts starts' : List α} {next' : α → List α} (hstarts : ∀ a ∈ starts, Reaches next' starts' a)
    (hnext : ∀ a, Reaches next starts a → Reaches next' starts' a → ∀ b ∈ next a, Reaches next' starts' b) {a : α}
    (h : Reaches next starts a) : Reaches next' starts' a := by
  induction h with
  | start ha => exact hstarts _ ha
  | step hprev hb ih => exact hnext _ hprev ih _ hb

theorem Reaches.closed {starts : List α} {P : α → Prop} (hstarts : ∀ a ∈ starts, P a)
    (hnext : ∀ a, P a → ∀ b ∈ next a, P b) {a : α} (h : Reaches next starts a) : P a := by
  induction h with
  | start ha => exact hstarts _ ha
  | step _ hb ih => exact hnext _ ih _ hb

/-- What has been visited and what waits are reached, and what follows a visited node has been visited or waits. -/
structure Inv (next : α → List α) (starts seen queue : List α) : Prop where
  nodup : seen.Nodup
  seen_reached : ∀ a ∈ seen, Reaches next starts a
  queue_reached : ∀ a ∈ queue, Reaches next starts a
  starts_kept : ∀ a ∈ starts, a ∈ seen ∨ a ∈ queue
  next_kept : ∀ a ∈ seen, ∀ b ∈ next a, b ∈ seen ∨ b ∈ queue

theorem Inv.init (starts : List α) : Inv next starts [] starts where
  nodup := List.nodup_nil
  seen_reached _ h := absurd h List.not_mem_nil
  queue_reached _ h := .start h
  starts_kept _ h := .inr h
  next_kept _ h := absurd h List.not_mem_nil

theorem Inv.pass {starts seen queue : List α} {a : α} (h : Inv next starts seen (a :: queue)) (ha : a ∈ seen) :
    Inv next starts seen queue := by
  have hdrop : ∀ b, b ∈ seen ∨ b ∈ a :: queue → b ∈ seen ∨ b ∈ queue := by
    intro b hb
    rcases hb with hb | hb
    · exact .inl hb
    · rcases List.mem_cons.1 hb with rfl | hb
      · exact .inl ha
      · exact .inr hb
  exact {
    nodup := h.nodup
    seen_reached := h.seen_reached
    queue_reached := fun b hb => h.queue_reached b (List.mem_cons_of_mem a hb)
    starts_kept := fun b hb => hdrop b (h.starts_kept b hb)
    next_kept := fun b hb c hc => hdrop c (h.next_kept b hb c hc) }

theorem Inv.visit {starts seen queue : List α} {a : α} (h : Inv next starts seen (a :: queue)) (ha : a ∉ seen) :
    Inv next starts (seen ++ [a]) (next a ++ queue) := by
  have hreached : Reaches next starts a := h.queue_reached a List.mem_cons_self
  have hmove : ∀ b, b ∈ seen ∨ b ∈ a :: queue → b ∈ seen ++ [a] ∨ b ∈ next a ++ queue := by
    intro b hb
    simp only [List.mem_cons, List.mem_append, List.not_mem_nil, or_false] at hb ⊢
    tauto
  constructor
  · exact List.nodup_append.2 ⟨h.nodup, by simp, by simpa using fun b hb (he : b = a) => ha (he ▸ hb)⟩
  · intro b hb
    rcases List.mem_append.1 hb with hb | hb
    · exact h.seen_reached b hb
    · exact List.mem_singleton.1 hb ▸ hreached
  · intro b hb
    rcases List.mem_append.1 hb with hb | hb
    · exact hreached.step hb
    · exact h.queue_reached b (List.mem_cons_of_mem a hb)
  · exact fun b hb => hmove b (h.starts_kept b hb)
  · intro b hb c hc
    rcases List.mem_append.1 hb with hb | hb
    · exact hmove c (h.next_kept b hb c hc)
    · exact .inr (List.mem_append_left _ (List.mem_singleton.1 hb ▸ hc))

variable [DecidableEq α]

def search (next : α → List α) : Nat → List α → List α → Option (List α)
  | _, seen, [] => some seen
  | 0, _, _ :: _ => none
  | n + 1, seen, a :: queue => if a ∈ seen then search next n seen queue else search next n (seen ++ [a]) (next a ++ queue)

theorem Inv.search {starts : List α} : ∀ {n : Nat} {seen queue visited : List α}, Inv next starts seen queue →
    search next n seen queue = some visited → Inv next starts visited []
  | _, seen, [], visited, h, hrun => by
    have heq : seen = visited := by cases ‹Nat› <;> simpa [Worklist.search] using hrun
    exact heq ▸ h
  | 0, _, _ :: _, _, _, hrun => by simp [Worklist.search] at hrun
  | n + 1, seen, a :: queue, visited, h, hrun => by
    rw [Worklist.search] at hrun
    split at hrun
    · next ha => exact (h.pass ha).search hrun
    · next ha => exact (h.visit ha).search hrun

theorem search_visited {n : Nat} {starts visited : List α} (hrun : search next n [] starts = some visited) :
    visited.Nodup ∧ ∀ a, a ∈ visited ↔ Reaches next starts a := by
  have hinit : Inv next starts [] starts := .init starts
  have h := hinit.search hrun
  refine ⟨h.nodup, fun a => ⟨h.seen_reached a, fun ha => ?_⟩⟩
  induction ha with
  | start ha => simpa using h.starts_kept _ ha
  | step _ hb ih => simpa using h.next_kept _ ih _ hb

theorem search_mono : ∀ {n m : Nat} {seen queue visited : List α}, n ≤ m → search next n seen queue = some visited →
    search next m seen queue = some visited
  | n, m, seen, [], _, _, hrun => by cases n <;> cases m <;> simpa [search] using hrun
  | 0, _, _, _ :: _, _, _, hrun => by simp [search] at hrun
  | n + 1, 0, _, _ :: _, _, hle, _ => absurd hle (by omega)
  | n + 1, m + 1, seen, a :: queue, visited, hle, hrun => by
    rw [search] at hrun ⊢
    split at hrun
    · next ha => rw [if_pos ha]; exact search_mono (Nat.le_of_succ_le_succ hle) hrun
    · next ha => rw [if_neg ha]; exact search_mono (Nat.le_of_succ_le_succ hle) hrun

theorem search_ends {nodes : List α} (hnext : ∀ a ∈ nodes, ∀ b ∈ next a, b ∈ nodes) (seen queue : List α)
    (hqueue : ∀ a ∈ queue, a ∈ nodes) : ∃ n visited, search next n seen queue = some visited := by
  -- Every visit takes a node off those not seen, and every other step shortens the queue.
  induction hk : (nodes.filter (· ∉ seen)).length using Nat.strongRecOn generalizing seen queue with
  | ind k ih =>
    induction queue with
    | nil => exact ⟨0, seen, rfl⟩
    | cons a queue ihqueue =>
      by_cases ha : a ∈ seen
      · obtain ⟨n, visited, hrun⟩ := ihqueue fun b hb => hqueue b (List.mem_cons_of_mem a hb)
        exact ⟨n + 1, visited, by rw [search, if_pos ha, hrun]⟩
      · have hnode : a ∈ nodes := hqueue a List.mem_cons_self
        have hless : (nodes.filter (· ∉ seen ++ [a])).length < k := by
          rw [← hk]
          have hsub : nodes.filter (· ∉ seen ++ [a]) = (nodes.filter (· ∉ seen)).filter (· ≠ a) := by
            rw [List.filter_filter]
            exact List.filter_congr fun b _ => by simp [not_or, and_comm]
          rw [hsub]
          refine List.length_filter_lt_length_iff_exists.2 ⟨a, ?_, by simp⟩
          exact List.mem_filter.2 ⟨hnode, by simpa using ha⟩
        have hgoes : ∀ b ∈ next a ++ queue, b ∈ nodes := by
          intro b hb
          rcases List.mem_append.1 hb with hb | hb
          · exact hnext a hnode b hb
          · exact hqueue b (List.mem_cons_of_mem a hb)
        obtain ⟨n, visited, hrun⟩ := ih _ hless (seen ++ [a]) (next a ++ queue) hgoes rfl
        exact ⟨n + 1, visited, by rw [search, if_neg ha, hrun]⟩

end Worklist
