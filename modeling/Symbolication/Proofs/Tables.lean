import Mathlib.Data.List.Induction
import Mathlib.Data.List.Nodup
import Symbolication.Report

namespace Symbolication

theorem eraseDups_concat {α : Type} [BEq α] [LawfulBEq α] (as : List α) (a : α) :
    (as ++ [a]).eraseDups = if a ∈ as then as.eraseDups else as.eraseDups ++ [a] := by
  rw [List.eraseDups_append]
  by_cases h : a ∈ as
  · simp [List.removeAll, h]
  · simp [List.removeAll, List.eraseDups_cons, h]

theorem pairwise_idxOf_eraseDups {α : Type} [BEq α] [LawfulBEq α] (as : List α) :
    as.eraseDups.Pairwise fun a b => as.idxOf a < as.idxOf b := by
  induction as using List.reverseRecOn with
  | nil => exact .nil
  | append_singleton as a ih =>
      have hidx {b : α} (hb : b ∈ as.eraseDups) : (as ++ [a]).idxOf b = as.idxOf b :=
        List.idxOf_append_of_mem (List.mem_eraseDups.mp hb)
      have hold : as.eraseDups.Pairwise fun b c => (as ++ [a]).idxOf b < (as ++ [a]).idxOf c :=
        ih.imp_of_mem fun hb hc h => by rwa [hidx hb, hidx hc]
      rw [eraseDups_concat]
      split
      · exact hold
      · next ha =>
          refine List.pairwise_append.mpr ⟨hold, List.pairwise_singleton _ _, ?_⟩
          intro b hb c hc
          obtain rfl := List.mem_singleton.mp hc
          rw [hidx hb, List.idxOf_append_of_notMem ha, List.idxOf_cons_self, Nat.add_zero]
          exact List.idxOf_lt_length_of_mem (List.mem_eraseDups.mp hb)

theorem eraseDups_filter {α : Type} [BEq α] [LawfulBEq α] (p : α → Bool) (as : List α) :
    (as.filter p).eraseDups = as.eraseDups.filter p := by
  induction as using List.reverseRecOn with
  | nil => rfl
  | append_singleton as a ih =>
      rw [List.filter_append, List.filter_singleton]
      cases hp : p a with
      | false =>
          rw [cond_false, List.append_nil, eraseDups_concat, ih]
          split <;> simp [hp]
      | true =>
          rw [cond_true, eraseDups_concat, eraseDups_concat, ih]
          by_cases ha : a ∈ as <;> simp [ha, hp]

theorem eraseDups_append_filter {α : Type} [BEq α] [LawfulBEq α] [DecidableEq α] (as bs : List α) :
    (as ++ bs).eraseDups = as.eraseDups ++ bs.eraseDups.filter fun b => b ∉ as := by
  rw [List.eraseDups_append, ← eraseDups_filter, List.removeAll]
  congr 3
  funext b
  simp

theorem eraseDups_of_nodup {α : Type} [BEq α] [LawfulBEq α] {as : List α} (h : as.Nodup) :
    as.eraseDups = as := by
  induction as using List.reverseRecOn with
  | nil => rfl
  | append_singleton as a ih =>
      obtain ⟨has, -, hdisjoint⟩ := List.nodup_append.mp h
      have ha : a ∉ as := fun ha => hdisjoint a ha a (List.mem_singleton_self a) rfl
      rw [eraseDups_concat, if_neg ha, ih has]

theorem nodup_eraseDups {α : Type} [BEq α] [LawfulBEq α] (as : List α) : as.eraseDups.Nodup :=
  (pairwise_idxOf_eraseDups as).imp fun h => ne_of_apply_ne as.idxOf (Nat.ne_of_lt h)

theorem flatMap_filter_perm {α κ : Type} [DecidableEq κ] (key : α → κ) {ks : List κ}
    (hks : ks.Nodup) {as : List α} (has : ∀ a ∈ as, key a ∈ ks) :
    (ks.flatMap fun k => as.filter fun a => key a = k).Perm as := by
  induction ks generalizing as with
  | nil =>
      cases as with
      | nil => exact .nil
      | cons a as => exact absurd (has a (List.mem_cons_self ..)) List.not_mem_nil
  | cons k ks ih =>
      obtain ⟨hk, hks⟩ := List.nodup_cons.mp hks
      let others := as.filter fun a => !decide (key a = k)
      have hothers : (ks.flatMap fun j => as.filter fun a => key a = j) =
          ks.flatMap fun j => others.filter fun a => key a = j := by
        refine List.flatMap_congr fun j hj => ?_
        rw [List.filter_filter]
        refine List.filter_congr fun a _ => ?_
        have hne : key a = j → key a ≠ k := fun h h' => hk (h' ▸ h ▸ hj)
        simpa using hne
      have hmem : ∀ a ∈ others, key a ∈ ks := by
        intro a ha
        obtain ⟨ha, hne⟩ := List.mem_filter.mp ha
        exact (List.mem_cons.mp (has a ha)).resolve_left (by simpa using hne)
      rw [List.flatMap_cons, hothers]
      exact ((ih hks hmem).append_left _).trans (List.filter_append_perm _ as)

namespace Table

variable {κ ν : Type} [DecidableEq κ]

theorem get?_eq_none_iff {t : Table κ ν} {k : κ} : get? t k = none ↔ k ∉ keys t := by
  induction t with
  | nil => simp [get?, keys]
  | cons e t ih =>
      obtain ⟨j, v⟩ := e
      by_cases h : j = k
      · simp [get?, keys, h]
      · simpa [get?, keys, h, Ne.symm h] using ih

theorem mem_of_get? {t : Table κ ν} {k : κ} {v : ν} (h : get? t k = some v) : (k, v) ∈ t := by
  induction t with
  | nil => simp [get?] at h
  | cons e t ih =>
      obtain ⟨j, w⟩ := e
      by_cases hj : j = k
      · simp only [get?, if_pos hj, Option.some.injEq] at h
        simp [hj, h]
      · simp only [get?, if_neg hj] at h
        exact List.mem_cons_of_mem _ (ih h)

theorem get?_of_mem {t : Table κ ν} (ht : (keys t).Nodup) {k : κ} {v : ν} (h : (k, v) ∈ t) :
    get? t k = some v := by
  induction t with
  | nil => cases h
  | cons e t ih =>
      obtain ⟨j, w⟩ := e
      obtain ⟨hj, ht⟩ := List.nodup_cons.mp ht
      rcases List.mem_cons.mp h with he | he
      · obtain ⟨rfl, rfl⟩ := Prod.mk.inj he
        simp [get?]
      · have hne : j ≠ k := by
          rintro rfl
          exact hj (List.mem_map.mpr ⟨_, he, rfl⟩)
        simpa [get?, hne] using ih ht he

theorem get?_eq_some_iff {t : Table κ ν} (ht : (keys t).Nodup) {k : κ} {v : ν} :
    get? t k = some v ↔ (k, v) ∈ t :=
  ⟨mem_of_get?, get?_of_mem ht⟩

theorem get?_perm {t u : Table κ ν} (ht : (keys t).Nodup) (h : t.Perm u) (k : κ) :
    get? t k = get? u k := by
  have hu : (keys u).Nodup := (h.map Prod.fst).nodup_iff.mp ht
  ext v
  rw [get?_eq_some_iff ht, get?_eq_some_iff hu, h.mem_iff]

theorem get?_filter (t : Table κ ν) {p : κ → Prop} [DecidablePred p] {k : κ} (hk : p k) :
    get? (t.filter fun e => p e.1) k = get? t k := by
  induction t with
  | nil => rfl
  | cons e t ih =>
      obtain ⟨j, v⟩ := e
      by_cases hj : j = k
      · subst hj
        simp [get?, hk]
      · by_cases hp : p j <;> simp [get?, hj, hp, ih]

theorem nodup_keys_update (j : κ) (f : Option ν → ν) {t : Table κ ν} (h : (keys t).Nodup) :
    (keys (update j f t)).Nodup := by
  rw [keys_update]
  split
  · exact h
  · next hj => exact List.Nodup.append h (List.nodup_singleton j) (List.disjoint_singleton.mpr hj)

theorem get?_put (t : Table κ ν) (j : κ) (v : ν) (k : κ) :
    get? (put t j v) k = if j = k then some v else get? t k :=
  get?_update j _ t k

theorem get?_putNew (t : Table κ ν) (j : κ) (v : ν) (k : κ) :
    get? (putNew t j v) k = if j = k then some ((get? t j).getD v) else get? t k :=
  get?_update j _ t k

theorem get?_merge (t : Table κ ν) {u : Table κ ν} (hu : (keys u).Nodup) (k : κ) :
    get? (merge t u) k = (get? u k).or (get? t k) := by
  induction u generalizing t with
  | nil => rfl
  | cons e u ih =>
      obtain ⟨j, v⟩ := e
      obtain ⟨hj, hu⟩ := List.nodup_cons.mp hu
      have hstep : merge t ((j, v) :: u) = merge (put t j v) u := rfl
      rw [hstep, ih _ hu, get?_put]
      by_cases h : j = k
      · subst h
        simp [get?, get?_eq_none_iff.mpr hj]
      · simp [get?, h]

theorem get?_foldl_putNew (t : Table κ ν) (entries : List (κ × ν)) (k : κ) :
    get? (entries.foldl (fun t e => putNew t e.1 e.2) t) k = (get? t k).or (get? entries k) := by
  induction entries generalizing t with
  | nil => simp [get?]
  | cons e entries ih =>
      obtain ⟨j, v⟩ := e
      rw [List.foldl_cons, ih, get?_putNew]
      by_cases h : j = k
      · subst h
        cases ht : get? t j <;> simp [get?]
      · simp [get?, h]

theorem get?_ofFirst (entries : List (κ × ν)) (k : κ) : get? (ofFirst entries) k = get? entries k :=
  get?_foldl_putNew [] entries k

section Keys

omit [DecidableEq κ] in
theorem keys_nil [BEq κ] : keys ([] : Table κ ν) = ([] : List κ).eraseDups := rfl

variable [BEq κ] [LawfulBEq κ]

theorem keys_update_eraseDups {t : Table κ ν} {ks : List κ} (h : keys t = ks.eraseDups) (j : κ)
    (f : Option ν → ν) : keys (update j f t) = (ks ++ [j]).eraseDups := by
  rw [keys_update, eraseDups_concat, h]
  simp only [List.mem_eraseDups]

theorem keys_foldl_update {t : Table κ ν} {ks : List κ} (h : keys t = ks.eraseDups)
    (f : κ × ν → Option ν → ν) (entries : List (κ × ν)) :
    keys (entries.foldl (fun t e => update e.1 (f e) t) t) = (ks ++ keys entries).eraseDups := by
  induction entries generalizing t ks with
  | nil => simpa [keys] using h
  | cons e entries ih =>
      rw [List.foldl_cons, ih (keys_update_eraseDups h e.1 (f e)), List.append_assoc]
      rfl

theorem keys_ofFirst (entries : List (κ × ν)) :
    keys (ofFirst entries) = (keys entries).eraseDups :=
  keys_foldl_update keys_nil (fun e v => v.getD e.2) entries

theorem keys_merge {t : Table κ ν} {ks : List κ} (h : keys t = ks.eraseDups) (u : Table κ ν) :
    keys (merge t u) = (ks ++ keys u).eraseDups :=
  keys_foldl_update h (fun e _ => e.2) u

theorem keys_foldl_merge {t : Table κ ν} {ks : List κ} (h : keys t = ks.eraseDups)
    (tables : List (Table κ ν)) :
    keys (tables.foldl merge t) = (ks ++ tables.flatMap keys).eraseDups := by
  induction tables generalizing t ks with
  | nil => simpa using h
  | cons u tables ih =>
      rw [List.foldl_cons, ih (keys_merge h u), List.append_assoc, List.flatMap_cons]

end Keys

theorem nodup_keys_ofFirst (entries : List (κ × ν)) : (keys (ofFirst entries)).Nodup := by
  rw [keys_ofFirst]
  exact nodup_eraseDups _

theorem exists_last_of_get?_foldl_merge {tables : List (Table κ ν)}
    (hnodup : ∀ u ∈ tables, (keys u).Nodup) {k : κ} {v : ν}
    (h : get? (tables.foldl merge []) k = some v) :
    ∃ earlier u later, tables = earlier ++ u :: later ∧ get? u k = some v ∧
      ∀ w ∈ later, k ∉ keys w := by
  induction tables using List.reverseRecOn with
  | nil => cases h
  | append_singleton tables u ih =>
      have hu := hnodup u (by simp)
      rw [List.foldl_append, List.foldl_cons, List.foldl_nil, get?_merge _ hu] at h
      cases hk : get? u k with
      | some w =>
          rw [hk, Option.some_or] at h
          exact ⟨tables, u, [], rfl, hk.trans h, List.forall_mem_nil _⟩
      | none =>
          rw [hk, Option.none_or] at h
          obtain ⟨earlier, w, later, rfl, hw, hlater⟩ :=
            ih (fun w hw => hnodup w (List.mem_append_left _ hw)) h
          refine ⟨earlier, w, later ++ [u], by simp, hw, ?_⟩
          exact List.forall_mem_append.mpr
            ⟨hlater, List.forall_mem_singleton.mpr (get?_eq_none_iff.mp hk)⟩

theorem get?_foldl_merge {tables : List (Table κ ν)} (hnodup : ∀ u ∈ tables, (keys u).Nodup) {k : κ}
    {v : ν} (hagree : ∀ u ∈ tables, ∀ w, get? u k = some w → w = v)
    (hfound : ∃ u ∈ tables, get? u k = some v) : get? (tables.foldl merge []) k = some v := by
  obtain ⟨u, hu, huk⟩ := hfound
  have hkey : k ∈ keys (tables.foldl merge []) := by
    rw [keys_foldl_merge keys_nil, List.nil_append, List.mem_eraseDups]
    exact List.mem_flatMap_of_mem hu (List.mem_map_of_mem (mem_of_get? huk))
  obtain ⟨w, hw⟩ := Option.ne_none_iff_exists'.mp (mt get?_eq_none_iff.mp (not_not.mpr hkey))
  obtain ⟨_, x, _, rfl, hx, -⟩ := exists_last_of_get?_foldl_merge hnodup hw
  rw [hw, hagree x (by simp) w hx]

theorem exists_first_of_get? {t : Table κ ν} {k : κ} {v : ν} (h : get? t k = some v) :
    ∃ i : Nat, t[i]? = some (k, v) ∧ ∀ j < i, (keys t)[j]? ≠ some k := by
  induction t with
  | nil => cases h
  | cons e t ih =>
      obtain ⟨j, w⟩ := e
      by_cases hj : j = k
      · simp only [get?, if_pos hj, Option.some.injEq] at h
        exact ⟨0, by simp [hj, h], by simp⟩
      · simp only [get?, if_neg hj] at h
        obtain ⟨i, hi, hfirst⟩ := ih h
        refine ⟨i + 1, by simpa using hi, fun n hn => ?_⟩
        cases n with
        | zero => simpa [keys] using hj
        | succ n => simpa [keys] using hfirst n (by omega)

theorem get?_zip {α β : Type} [BEq α] [LawfulBEq α] {f : α → κ}
    (hf : ∀ a b, f a = f b → a = b) (g : β → ν) (as : List α) {bs : List β}
    (hlen : bs.length = as.length) (a : α) :
    get? ((as.zip bs).map fun (a, b) => (f a, g b)) (f a) = bs[as.idxOf a]?.map g := by
  induction as generalizing bs with
  | nil => simp [List.length_eq_zero_iff.mp hlen, get?]
  | cons c as ih =>
      obtain ⟨b, bs, rfl⟩ := List.exists_cons_of_length_eq_add_one hlen
      by_cases hc : c = a
      · simp [get?, hc]
      · have hfc : f c ≠ f a := fun h => hc (hf c a h)
        simpa [get?, hfc, List.idxOf_cons_ne _ hc] using ih (Nat.succ.inj hlen)

end Table

def offsetsOf (module : Text) (ms : List (Marker Glyph)) : List Text :=
  (ms.filter fun m => m.module = module).map Marker.offset

theorem offsetsOf_append (module : Text) (ms ns : List (Marker Glyph)) :
    offsetsOf module (ms ++ ns) = offsetsOf module ms ++ offsetsOf module ns := by
  rw [offsetsOf, List.filter_append, List.map_append]
  rfl

theorem offsetsOf_eq_nil {module : Text} {ms : List (Marker Glyph)}
    (h : module ∉ ms.map Marker.module) : offsetsOf module ms = [] := by
  rw [offsetsOf, List.map_eq_nil_iff, List.filter_eq_nil_iff]
  intro m hm he
  exact h (List.mem_map.mpr ⟨m, hm, of_decide_eq_true he⟩)

namespace Groups

theorem nodup_keys_ofMarkers (ms : List (Marker Glyph)) : (Table.keys (ofMarkers ms)).Nodup := by
  induction ms using List.reverseRecOn with
  | nil => exact .nil
  | append_singleton ms m ih =>
      rw [ofMarkers_append]
      exact Table.nodup_keys_update _ _ ih

theorem keys_ofMarkers (ms : List (Marker Glyph)) :
    Table.keys (ofMarkers ms) = (ms.map Marker.module).eraseDups := by
  induction ms using List.reverseRecOn with
  | nil => rfl
  | append_singleton ms m ih =>
      have hstep : ofMarkers (ms ++ [m]) = add (ofMarkers ms) m := ofMarkers_append ms [m]
      rw [hstep, add, Table.keys_update, ih, List.map_append, List.map_singleton, eraseDups_concat]
      simp only [List.mem_eraseDups]

theorem get?_ofMarkers (ms : List (Marker Glyph)) (k : Text) :
    Table.get? (ofMarkers ms) k =
      if k ∈ ms.map Marker.module then some (offsetsOf k ms) else none := by
  induction ms using List.reverseRecOn with
  | nil => rfl
  | append_singleton ms m ih =>
      have hstep : ofMarkers (ms ++ [m]) = add (ofMarkers ms) m := ofMarkers_append ms [m]
      rw [hstep, add, Table.get?_update, offsetsOf_append]
      by_cases hk : m.module = k
      · subst hk
        have hone : offsetsOf m.module [m] = [m.offset] := by simp [offsetsOf]
        rw [ih, hone]
        by_cases hm : m.module ∈ ms.map Marker.module
        · simp [hm]
        · simp [hm, offsetsOf_eq_nil hm]
      · have hnone : offsetsOf k [m] = [] := offsetsOf_eq_nil (by simpa using Ne.symm hk)
        rw [if_neg hk, ih, hnone]
        simp [Ne.symm hk]

theorem eq_offsetsOf_of_mem {ms : List (Marker Glyph)} {g : Text × List Text}
    (h : g ∈ ofMarkers ms) : g.1 ∈ ms.map Marker.module ∧ g.2 = offsetsOf g.1 ms := by
  have hget := Table.get?_of_mem (nodup_keys_ofMarkers ms) h
  rw [get?_ofMarkers] at hget
  split at hget
  · next hmodule => exact ⟨hmodule, (Option.some.inj hget).symm⟩
  · cases hget

theorem mem_offsetsOf {m : Marker Glyph} {ms : List (Marker Glyph)} :
    m.offset ∈ offsetsOf m.module ms ↔ m ∈ ms := by
  simp only [offsetsOf, List.mem_map, List.mem_filter, decide_eq_true_eq]
  constructor
  · rintro ⟨n, ⟨hn, hmodule⟩, hoffset⟩
    cases n
    cases m
    simp_all
  · intro h
    exact ⟨m, ⟨h, rfl⟩, rfl⟩

theorem ofMarkers_eq (ms : List (Marker Glyph)) :
    ofMarkers ms = (ms.map Marker.module).eraseDups.map fun k => (k, offsetsOf k ms) := by
  rw [← keys_ofMarkers, Table.keys, List.map_map]
  refine (List.map_id _).symm.trans (List.map_congr_left fun g hg => ?_)
  exact Prod.ext rfl (eq_offsetsOf_of_mem hg).2

theorem offsets_ne_nil {ms : List (Marker Glyph)} {g : Text × List Text} (h : g ∈ ofMarkers ms) :
    g.2 ≠ [] := by
  obtain ⟨hmodule, hoffsets⟩ := eq_offsetsOf_of_mem h
  obtain ⟨m, hm, hname⟩ := List.mem_map.mp hmodule
  rw [hoffsets, ← hname]
  exact List.ne_nil_of_mem (mem_offsetsOf.mpr hm)

theorem get?_ofText {t : Text} {m : Marker Glyph} (h : m ∈ markers t) :
    Table.get? (ofText t) m.module = some (offsetsOf m.module (markers t)) := by
  rw [ofText, get?_ofMarkers, if_pos (List.mem_map.mpr ⟨m, h, rfl⟩)]

theorem ofText_eq (t : Text) :
    ofText t = (((markers t).map Marker.module).eraseDups).map fun k =>
      (k, offsetsOf k (markers t)) :=
  ofMarkers_eq (markers t)

end Groups

end Symbolication
