import Symbolication.Proofs.Entries
import Symbolication.Report

namespace Symbolication

variable {host : Host} {command suffix : Text} {directory : Path} {groups : Groups}
  {table : Replacements}

namespace Groups

def spelled (group : Text × List Text) : List Text :=
  group.2.map fun offset => Marker.spelling ⟨offset, group.1⟩

theorem flatMap_spellings_jobs (directory : Path) (suffix : Text) (groups : Groups) :
    (Report.jobs directory suffix groups).flatMap Job.spellings = groups.flatMap spelled := by
  rw [Report.jobs, List.flatMap_map]
  rfl

theorem eq_of_mem_spelled (hgroups : (Table.keys groups).Nodup)
    (hoffsets : ∀ g ∈ groups, ∀ o ∈ g.2, Alphabet.letter ']' ∉ o) {g g' : Text × List Text}
    (hg : g ∈ groups) (hg' : g' ∈ groups) {k : Text} (hk : k ∈ spelled g) (hk' : k ∈ spelled g') :
    g = g' := by
  obtain ⟨o, ho, rfl⟩ := List.mem_map.mp hk
  obtain ⟨o', ho', hspelling⟩ := List.mem_map.mp hk'
  have hmarker := Marker.spelling_inj (hoffsets g' hg' o' ho') (hoffsets g hg o ho) hspelling
  have hmodule : g'.1 = g.1 := congrArg Marker.module hmarker
  have hget := Table.get?_of_mem hgroups hg
  rw [← hmodule, Table.get?_of_mem hgroups hg'] at hget
  exact Prod.ext hmodule.symm (Option.some.inj hget).symm

end Groups

open Groups

namespace Job

theorem exists_first_of_get?_replacements {job : Job} {bs : List Text}
    (h : bs.length = job.offsets.length) {k v : Text}
    (hget : Table.get? (job.replacements bs) k = some v) :
    ∃ (i : Nat) (block : Text), job.spellings[i]? = some k ∧ (∀ j < i, job.spellings[j]? ≠ some k) ∧
      bs[i]? = some block ∧ v = replacement job.module block := by
  rw [replacements, Table.get?_ofFirst] at hget
  obtain ⟨i, hi, hfirst⟩ := Table.exists_first_of_get? hget
  rw [job.keys_zip h] at hfirst
  rw [List.getElem?_map, Option.map_eq_some_iff] at hi
  obtain ⟨⟨offset, block⟩, hzip, he⟩ := hi
  obtain ⟨hoffset, hblock⟩ := List.getElem?_zip_eq_some.mp hzip
  obtain ⟨rfl, rfl⟩ := Prod.mk.inj he
  exact ⟨i, block, by rw [spellings, List.getElem?_map, hoffset]; rfl, hfirst, hblock, rfl⟩

end Job

structure EntryFrom (host : Host) (command : Text) (directory : Path) (suffix : Text)
    (groups : Groups) (k v : Text) (group : Text × List Text) (i : Nat) (block : Text) : Prop where
  last : ∃ earlier later, groups = earlier ++ group :: later ∧ ∀ g ∈ later, k ∉ spelled g
  place : (spelled group)[i]? = some k
  first : ∀ j < i, (spelled group)[j]? ≠ some k
  answered : ∃ stdout stderr,
    host.spawn (command :: Job.arguments (Artifact.path directory group.1 suffix) group.2) =
      .exited 0 stdout stderr ∧
    (Block.split (Utf8.decodeLossy stdout)).length = group.2.length ∧
    (Block.split (Utf8.decodeLossy stdout))[i]? = some block
  value : v = group.1 ++ spell "+" ++ block

theorem entryFrom_of_get? {workers : Int}
    (h : (resolveAll host command workers (Report.jobs directory suffix groups)).run.value =
      .ok table) {k v : Text} (hget : Table.get? table k = some v) :
    ∃ group i block, EntryFrom host command directory suffix groups k v group i block := by
  obtain ⟨tables, rfl, htables⟩ := value_resolveAll_eq_ok_iff.mp h
  have hnodup := nodup_keys_of_resolved htables
  obtain ⟨before, u, behind, rfl, hu, hbehind⟩ := Table.exists_last_of_get?_foldl_merge hnodup hget
  rw [Report.jobs, List.map_map, List.map_append, List.map_cons] at htables
  obtain ⟨earlier, rest, hgroups, -, hrest⟩ := List.map_eq_append_iff.mp htables
  obtain ⟨group, later, rfl, hgroup, hlater⟩ := List.map_eq_cons_iff.mp hrest
  obtain ⟨bs, hbs, rfl⟩ := Job.replacements_of_value_resolve hgroup
  obtain ⟨stdout, stderr, hspawn, rfl, hlength⟩ := Job.value_blocks_eq_ok_iff.mp hbs
  obtain ⟨i, block, hi, hfirst, hblock, hvalue⟩ := Job.exists_first_of_get?_replacements hlength hu
  refine ⟨group, i, block, ?_⟩
  constructor
  case last =>
    refine ⟨earlier, later, hgroups, fun g hg hk => ?_⟩
    -- The table of a later group would have the key as well.
    obtain ⟨w, hw, hresolve⟩ := (ok_of_map_eq hlater).1 g hg
    refine hbehind w hw ?_
    rw [Job.keys_of_value_resolve hresolve, List.mem_eraseDups]
    exact hk
  case place => exact hi
  case first => exact hfirst
  case answered => exact ⟨stdout, stderr, hspawn, hlength, hblock⟩
  case value => exact hvalue

structure Mapped (host : Host) (command : Text) (directory : Path) (suffix : Text) (groups : Groups)
    (table : Replacements) : Prop where
  mem_keys : ∀ k, k ∈ Table.keys table ↔
    ∃ g ∈ groups, ∃ offset ∈ g.2, Marker.spelling ⟨offset, g.1⟩ = k
  keys_nodup : (Table.keys table).Nodup
  keys_ordered : (Table.keys table).Pairwise fun k k' =>
    (groups.flatMap spelled).idxOf k < (groups.flatMap spelled).idxOf k'
  entries : ∀ e ∈ table, ∃ group i block,
    EntryFrom host command directory suffix groups e.1 e.2 group i block
  apart : (∀ g ∈ groups, ∀ offset ∈ g.2, Alphabet.letter ']' ∉ offset) →
    (∀ g ∈ groups, ∀ g' ∈ groups, ∀ k ∈ spelled g, k ∈ spelled g' → g = g') ∧
      table.length = (groups.map fun g => g.2.toFinset.card).sum

theorem resolveAll_maps {workers : Int} (hgroups : (Table.keys groups).Nodup)
    (h : (resolveAll host command workers (Report.jobs directory suffix groups)).run.value =
      .ok table) : Mapped host command directory suffix groups table := by
  have hkeys := keys_of_value_resolveAll h
  rw [flatMap_spellings_jobs] at hkeys
  constructor
  case mem_keys =>
    intro k
    rw [hkeys, List.mem_eraseDups, List.mem_flatMap]
    simp only [spelled, List.mem_map]
  case keys_nodup => exact nodup_keys_of_value_resolveAll h
  case keys_ordered =>
    rw [hkeys]
    exact pairwise_idxOf_eraseDups _
  case entries =>
    intro e he
    exact entryFrom_of_get? h (Table.get?_of_mem (nodup_keys_of_value_resolveAll h) he)
  case apart =>
    intro hoffsets
    refine ⟨fun g hg g' hg' k => eq_of_mem_spelled hgroups hoffsets hg hg', ?_⟩
    have hmodules : ((Report.jobs directory suffix groups).map Job.module).Nodup := by
      rw [Report.jobs, List.map_map]
      exact hgroups
    rw [length_of_value_resolveAll hmodules (List.forall_mem_map.mpr hoffsets) h, Report.jobs,
      List.map_map]
    rfl

-- The first module and the last spell one text, and the one between them spells its text twice.
def brackets : Groups :=
  [(spell "2](3", [spell "1", spell "1"]), (spell "n", [spell "5", spell "5"]),
    (spell "3", [spell "1](2", spell "9"])]

def twoBlocks : Host := .answering fun _ => .exited 0 (spell "p\np\n\nq\n\n") []

theorem resolveAll_maps_brackets :
    (Table.keys brackets).Nodup ∧
    (resolveAll twoBlocks (spell "sym") 1 (Report.jobs ⟨.relative, []⟩ [] brackets)).run.value =
      .ok [(spell "[+1](2](3)", spell "3+p\np"), (spell "[+5](n)", spell "n+p\np"),
        (spell "[+9](3)", spell "3+q")] ∧
    Mapped twoBlocks (spell "sym") ⟨.relative, []⟩ [] brackets
      [(spell "[+1](2](3)", spell "3+p\np"), (spell "[+5](n)", spell "n+p\np"),
        (spell "[+9](3)", spell "3+q")] := by
  have hgroups : (Table.keys brackets).Nodup := by decide
  have h : (resolveAll twoBlocks (spell "sym") 1
      (Report.jobs ⟨.relative, []⟩ [] brackets)).run.value =
        .ok [(spell "[+1](2](3)", spell "3+p\np"), (spell "[+5](n)", spell "n+p\np"),
          (spell "[+9](3)", spell "3+q")] := by decide
  exact ⟨hgroups, h, resolveAll_maps hgroups h⟩

end Symbolication
