import Symbolication.Proofs.Entries

namespace Symbolication

theorem card_toFinset_eq_length_iff {α : Type} [DecidableEq α] {as : List α} :
    as.toFinset.card = as.length ↔ as.Nodup :=
  Multiset.toFinset_card_eq_card_iff_nodup

namespace Groups

def append (groups further : Groups) : Groups :=
  groups.map (fun g => (g.1, g.2 ++ (Table.get? further g.1).getD [])) ++
    further.filter fun g => (Table.get? groups g.1).isNone

theorem getD_get?_ofMarkers (module : Text) (ms : List (Marker Glyph)) :
    (Table.get? (ofMarkers ms) module).getD [] = offsetsOf module ms := by
  rw [get?_ofMarkers]
  split
  · rfl
  · next h => exact (offsetsOf_eq_nil h).symm

theorem isNone_get?_ofMarkers (module : Text) (ms : List (Marker Glyph)) :
    (Table.get? (ofMarkers ms) module).isNone = decide (module ∉ ms.map Marker.module) := by
  rw [get?_ofMarkers]
  split <;> simp_all

theorem ofMarkers_append_eq (ms ns : List (Marker Glyph)) :
    ofMarkers (ms ++ ns) = append (ofMarkers ms) (ofMarkers ns) := by
  -- Known modules and new ones: either half maps its modules to all their offsets.
  have hknown : (ofMarkers ms).map (fun g => (g.1, g.2 ++ (Table.get? (ofMarkers ns) g.1).getD [])) =
      (ms.map Marker.module).eraseDups.map fun k => (k, offsetsOf k (ms ++ ns)) := by
    rw [ofMarkers_eq ms, List.map_map]
    refine List.map_congr_left fun k _ => ?_
    simp only [Function.comp_apply, getD_get?_ofMarkers, offsetsOf_append]
  have hnew : ((ofMarkers ns).filter fun g => (Table.get? (ofMarkers ms) g.1).isNone) =
      ((ns.map Marker.module).eraseDups.filter fun k => k ∉ ms.map Marker.module).map
        fun k => (k, offsetsOf k (ms ++ ns)) := by
    rw [ofMarkers_eq ns, List.filter_map]
    simp only [Function.comp_def, isNone_get?_ofMarkers]
    refine List.map_congr_left fun k hk => ?_
    have hk : k ∉ ms.map Marker.module := of_decide_eq_true (List.mem_filter.mp hk).2
    rw [offsetsOf_append, offsetsOf_eq_nil hk, List.nil_append]
  rw [append, hknown, hnew, ← List.map_append, ← eraseDups_append_filter, ← List.map_append,
    ofMarkers_eq]

theorem pairs_perm (ms : List (Marker Glyph)) :
    ((ofMarkers ms).flatMap fun g => g.2.map fun offset => (g.1, offset)).Perm
      (ms.map fun m => (m.module, m.offset)) := by
  have hmodule : ∀ m ∈ ms, m.module ∈ (ms.map Marker.module).eraseDups := fun m hm =>
    List.mem_eraseDups.mpr (List.mem_map_of_mem hm)
  have hpairs : ((ofMarkers ms).flatMap fun g => g.2.map fun offset => (g.1, offset)) =
      ((ms.map Marker.module).eraseDups.flatMap fun k => ms.filter fun m => m.module = k).map
        fun m => (m.module, m.offset) := by
    rw [ofMarkers_eq, List.flatMap_map, List.map_flatMap]
    refine List.flatMap_congr fun k _ => ?_
    rw [offsetsOf, List.map_map]
    refine List.map_congr_left fun m hm => ?_
    have hk : m.module = k := of_decide_eq_true (List.mem_filter.mp hm).2
    rw [Function.comp_apply, hk]
  rw [hpairs]
  exact (flatMap_filter_perm Marker.module (nodup_eraseDups _) hmodule).map _

theorem sum_occurrences (ms : List (Marker Glyph)) :
    ((ofMarkers ms).tallies.map Tally.occurrences).sum = ms.length := by
  have hlength := (pairs_perm ms).length_eq
  rw [List.length_flatMap, List.length_map] at hlength
  rw [← hlength, tallies, List.map_map]
  simp only [List.length_map]
  rfl

structure Counts (offsets : List Text) (t : Tally) : Prop where
  occurrences : t.occurrences = offsets.length
  distinct : t.distinct = offsets.toFinset.card
  distinct_pos : 1 ≤ t.distinct
  distinct_le : t.distinct ≤ t.occurrences
  distinct_eq_iff : t.distinct = t.occurrences ↔ offsets.Nodup

theorem counts_ofGroup {g : Text × List Text} (h : g.2 ≠ []) : Counts g.2 (Tally.ofGroup g) := by
  have hdistinct : (Tally.ofGroup g).distinct = g.2.toFinset.card := length_eraseDups g.2
  constructor
  case occurrences => rfl
  case distinct => exact hdistinct
  case distinct_pos =>
    rw [hdistinct, Nat.succ_le_iff, Finset.card_pos, List.toFinset_nonempty_iff]
    exact h
  case distinct_le =>
    rw [hdistinct]
    exact List.toFinset_card_le g.2
  case distinct_eq_iff =>
    rw [hdistinct]
    exact card_toFinset_eq_length_iff

structure Partitions (ms : List (Marker Glyph)) : Prop where
  mem_keys : ∀ k, k ∈ Table.keys (ofMarkers ms) ↔ ∃ m ∈ ms, m.module = k
  keys_nodup : (Table.keys (ofMarkers ms)).Nodup
  keys_ordered : (Table.keys (ofMarkers ms)).Pairwise fun k k' =>
    (ms.map Marker.module).idxOf k < (ms.map Marker.module).idxOf k'
  offsets_eq : ∀ g ∈ ofMarkers ms, g.2 = (ms.filter fun m => m.module = g.1).map Marker.offset
  offsets_ne_nil : ∀ g ∈ ofMarkers ms, g.2 ≠ []
  pairs_perm : ((ofMarkers ms).flatMap fun g => g.2.map fun offset => (g.1, offset)).Perm
    (ms.map fun m => (m.module, m.offset))
  append_eq : ∀ ns, ofMarkers (ms ++ ns) = append (ofMarkers ms) (ofMarkers ns)
  tallies_modules : (ofMarkers ms).tallies.map Tally.module = Table.keys (ofMarkers ms)
  counts : ∀ t ∈ (ofMarkers ms).tallies,
    Counts ((ms.filter fun m => m.module = t.module).map Marker.offset) t
  sum_occurrences : ((ofMarkers ms).tallies.map Tally.occurrences).sum = ms.length

theorem ofMarkers_partitions (ms : List (Marker Glyph)) : Partitions ms := by
  constructor
  case mem_keys =>
    intro k
    rw [keys_ofMarkers, List.mem_eraseDups, List.mem_map]
  case keys_nodup => exact nodup_keys_ofMarkers ms
  case keys_ordered =>
    rw [keys_ofMarkers]
    exact pairwise_idxOf_eraseDups _
  case offsets_eq => exact fun g hg => (eq_offsetsOf_of_mem hg).2
  case offsets_ne_nil => exact fun g hg => Groups.offsets_ne_nil hg
  case pairs_perm => exact Groups.pairs_perm ms
  case append_eq => exact ofMarkers_append_eq ms
  case tallies_modules =>
    rw [tallies, List.map_map]
    rfl
  case counts =>
    intro t ht
    obtain ⟨g, hg, rfl⟩ := List.mem_map.mp ht
    have hcounts := counts_ofGroup (Groups.offsets_ne_nil hg)
    rw [(eq_offsetsOf_of_mem hg).2] at hcounts
    exact hcounts
  case sum_occurrences => exact Groups.sum_occurrences ms

end Groups

end Symbolication
