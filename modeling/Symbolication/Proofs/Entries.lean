import Mathlib.Algebra.GroupWithZero.Nat
import Mathlib.Data.Finset.Card
import Symbolication.Proofs.Pool
import Symbolication.Proofs.Scan

namespace Symbolication

theorem length_eraseDups {α : Type} [BEq α] [LawfulBEq α] [DecidableEq α] (as : List α) :
    as.eraseDups.length = as.toFinset.card := by
  rw [← List.toFinset_card_of_nodup (nodup_eraseDups as)]
  congr 1
  ext a
  simp

theorem card_toFinset_flatMap {α ι : Type} [DecidableEq α] {f : ι → List α} {is : List ι}
    (h : is.Pairwise fun i j => (f i).Disjoint (f j)) :
    (is.flatMap f).toFinset.card = (is.map fun i => (f i).toFinset.card).sum := by
  induction is with
  | nil => rfl
  | cons i is ih =>
      obtain ⟨hi, his⟩ := List.pairwise_cons.mp h
      have hdisjoint : Disjoint (f i).toFinset (is.flatMap f).toFinset := by
        rw [List.disjoint_toFinset_iff_disjoint]
        intro a ha hrest
        obtain ⟨j, hj, haj⟩ := List.mem_flatMap.mp hrest
        exact hi j hj ha haj
      rw [List.flatMap_cons, List.toFinset_append, Finset.card_union_of_disjoint hdisjoint, ih his,
        List.map_cons, List.sum_cons]

variable {host : Host} {command : Text}

namespace Job

def spellings (job : Job) : List Text :=
  job.offsets.map fun offset => Marker.spelling ⟨offset, job.module⟩

theorem card_spellings (job : Job) : job.spellings.toFinset.card = job.offsets.toFinset.card := by
  have himage : job.spellings.toFinset = job.offsets.toFinset.image
      fun offset => Marker.spelling ⟨offset, job.module⟩ := by
    ext k
    simp [spellings]
  rw [himage, Finset.card_image_of_injective]
  intro a b hab
  simpa [Marker.spelling] using hab

theorem disjoint_spellings {job job' : Job} (hmodule : job.module ≠ job'.module)
    (h : ∀ o ∈ job.offsets, Alphabet.letter ']' ∉ o)
    (h' : ∀ o ∈ job'.offsets, Alphabet.letter ']' ∉ o) :
    job.spellings.Disjoint job'.spellings := by
  intro k hk hk'
  obtain ⟨o, ho, rfl⟩ := List.mem_map.mp hk
  obtain ⟨o', ho', heq⟩ := List.mem_map.mp hk'
  have hmarker := Marker.spelling_inj (h' o' ho') (h o ho) heq
  exact hmodule (congrArg Marker.module hmarker).symm

theorem keys_zip (job : Job) {bs : List Text} (h : bs.length = job.offsets.length) :
    Table.keys ((job.offsets.zip bs).map fun (offset, block) =>
      (Marker.spelling ⟨offset, job.module⟩, replacement job.module block)) = job.spellings := by
  have hfst : (job.offsets.zip bs).map Prod.fst = job.offsets := List.map_fst_zip h.ge
  rw [Table.keys, List.map_map, spellings]
  conv_rhs => rw [← hfst, List.map_map]
  rfl

theorem keys_replacements (job : Job) {bs : List Text} (h : bs.length = job.offsets.length) :
    Table.keys (job.replacements bs) = job.spellings.eraseDups := by
  rw [replacements, Table.keys_ofFirst, job.keys_zip h]

theorem keys_of_value_resolve {job : Job} {table : Replacements}
    (h : (job.resolve host command).run.value = .ok table) :
    Table.keys table = job.spellings.eraseDups := by
  obtain ⟨bs, hbs, rfl⟩ := replacements_of_value_resolve h
  obtain ⟨-, -, -, -, hlength⟩ := value_blocks_eq_ok_iff.mp hbs
  exact job.keys_replacements hlength

end Job

theorem eraseDups_flatMap_keys {jobs : List Job} {tables : List Replacements}
    (h : (jobs.map fun job : Job => (job.resolve host command).run.value) = tables.map .ok) :
    (tables.flatMap Table.keys).eraseDups = (jobs.flatMap Job.spellings).eraseDups := by
  induction jobs generalizing tables with
  | nil =>
      rw [List.map_eq_nil_iff.mp h.symm]
      rfl
  | cons job jobs ih =>
      cases tables with
      | nil => cases h
      | cons table tables =>
          obtain ⟨hjob, hjobs⟩ := List.cons.inj h
          have hdups := eraseDups_of_nodup (nodup_eraseDups job.spellings)
          simp only [List.flatMap_cons, eraseDups_append_filter, ih hjobs,
            Job.keys_of_value_resolve hjob, hdups, List.mem_eraseDups]

theorem keys_of_value_resolveAll {workers : Int} {jobs : List Job} {table : Replacements}
    (h : (resolveAll host command workers jobs).run.value = .ok table) :
    Table.keys table = (jobs.flatMap Job.spellings).eraseDups := by
  obtain ⟨tables, rfl, htables⟩ := value_resolveAll_eq_ok_iff.mp h
  rw [Table.keys_foldl_merge Table.keys_nil, List.nil_append, eraseDups_flatMap_keys htables]

theorem nodup_keys_of_value_resolveAll {workers : Int} {jobs : List Job} {table : Replacements}
    (h : (resolveAll host command workers jobs).run.value = .ok table) :
    (Table.keys table).Nodup := by
  rw [keys_of_value_resolveAll h]
  exact nodup_eraseDups _

theorem toFinset_keys_of_value_resolveAll {workers : Int} {jobs : List Job} {table : Replacements}
    (h : (resolveAll host command workers jobs).run.value = .ok table) :
    (Table.keys table).toFinset = (jobs.flatMap Job.spellings).toFinset := by
  ext k
  simp [keys_of_value_resolveAll h]

theorem length_of_value_resolveAll {workers : Int} {jobs : List Job} {table : Replacements}
    (hmodules : (jobs.map Job.module).Nodup)
    (hoffsets : ∀ job ∈ jobs, ∀ o ∈ job.offsets, Alphabet.letter ']' ∉ o)
    (h : (resolveAll host command workers jobs).run.value = .ok table) :
    table.length = (jobs.map fun job => job.offsets.toFinset.card).sum := by
  have hkeys : table.length = (Table.keys table).toFinset.card := by
    rw [List.toFinset_card_of_nodup (nodup_keys_of_value_resolveAll h), Table.keys, List.length_map]
  -- A key tells its module, so entries of two jobs never fall together.
  have hdisjoint : jobs.Pairwise fun job job' => job.spellings.Disjoint job'.spellings :=
    (List.pairwise_map.mp hmodules).imp_of_mem fun hjob hjob' hne =>
      Job.disjoint_spellings hne (hoffsets _ hjob) (hoffsets _ hjob')
  rw [hkeys, toFinset_keys_of_value_resolveAll h, card_toFinset_flatMap hdisjoint]
  simp only [Job.card_spellings]

theorem length_filter_of_value_resolveAll {workers : Int} {jobs : List Job} {table : Replacements}
    (h : (resolveAll host command workers jobs).run.value = .ok table) {job : Job}
    (hjob : job ∈ jobs) :
    (table.filter fun e => e.1 ∈ job.spellings).length = job.offsets.toFinset.card := by
  have hlength : (table.filter fun e => e.1 ∈ job.spellings).length =
      ((Table.keys table).filter fun k => k ∈ job.spellings).length := by
    rw [Table.keys, List.filter_map, List.length_map]
    rfl
  have hkeys : ((Table.keys table).filter fun k => k ∈ job.spellings).toFinset =
      job.spellings.toFinset := by
    ext k
    simp only [List.mem_toFinset, List.mem_filter, decide_eq_true_eq, and_iff_right_iff_imp]
    intro hk
    rw [← List.mem_toFinset, toFinset_keys_of_value_resolveAll h, List.mem_toFinset]
    exact List.mem_flatMap_of_mem hjob hk
  have hnodup := (nodup_keys_of_value_resolveAll h).filter fun k => k ∈ job.spellings
  rw [hlength, ← List.toFinset_card_of_nodup hnodup, hkeys, job.card_spellings]

end Symbolication
