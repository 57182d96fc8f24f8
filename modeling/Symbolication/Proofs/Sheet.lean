import Symbolication.Command.Execution
import Symbolication.Proofs.Ascii
import Symbolication.Proofs.Diagnosis
import Symbolication.Proofs.Entries
import Symbolication.Proofs.Paths
import Symbolication.Proofs.Printable

namespace Symbolication

open Block (newline)

namespace Sheet

variable {σ : Type} [Alphabet σ]

def tab : σ := Alphabet.letter '\t'

theorem tab_ne_newline : (tab : σ) ≠ newline := fun h =>
  absurd (Alphabet.letter_inj (by decide) (by decide) h) (by decide)

def writeRow (fields : List (List σ)) : List σ := [tab].intercalate fields ++ [newline]

def Bare (field : List σ) : Prop := tab ∉ field ∧ newline ∉ field

theorem Bare.of_subset {s t : List σ} (h : Bare t) (hsub : ∀ a ∈ s, a ∈ t) : Bare s :=
  ⟨fun hmem => h.1 (hsub _ hmem), fun hmem => h.2 (hsub _ hmem)⟩

theorem Bare.append {s t : List σ} (hs : Bare s) (ht : Bare t) : Bare (s ++ t) :=
  ⟨fun hmem => (List.mem_append.mp hmem).elim hs.1 ht.1,
    fun hmem => (List.mem_append.mp hmem).elim hs.2 ht.2⟩

theorem bare_intercalate {sep : List σ} {ts : List (List σ)} (hsep : Bare sep)
    (h : ∀ t ∈ ts, Bare t) : Bare (sep.intercalate ts) := by
  constructor
  · intro hmem
    rcases Block.mem_intercalate hmem with hmem | ⟨t, ht, hmem⟩
    · exact hsep.1 hmem
    · exact (h t ht).1 hmem
  · intro hmem
    rcases Block.mem_intercalate hmem with hmem | ⟨t, ht, hmem⟩
    · exact hsep.2 hmem
    · exact (h t ht).2 hmem

variable [DecidableEq σ]

def read? (s : List σ) : Option (List (List (List σ))) :=
  if (s.splitOn newline).getLast? = some [] then
    some ((s.splitOn newline).dropLast.map (·.splitOn tab))
  else none

theorem bare_of_read? {s : List σ} {rows : List (List (List σ))} (h : read? s = some rows) :
    ∀ row ∈ rows, ∀ field ∈ row, Bare field := by
  intro row hrow field hfield
  rw [read?] at h
  split at h
  · obtain rfl := Option.some.inj h
    obtain ⟨line, hline, rfl⟩ := List.mem_map.mp hrow
    obtain ⟨htab, hsub⟩ := of_mem_splitOn hfield
    have hnewline : newline ∉ line := (of_mem_splitOn (List.dropLast_subset _ hline)).1
    exact ⟨htab, fun hmem => hnewline (hsub _ hmem)⟩
  · cases h

omit [DecidableEq σ] in
theorem newline_notMem_intercalate {row : List (List σ)} (h : ∀ field ∈ row, Bare field) :
    newline ∉ [tab].intercalate row := by
  intro hmem
  rcases Block.mem_intercalate hmem with hmem | ⟨field, hfield, hmem⟩
  · exact tab_ne_newline (List.mem_singleton.mp hmem).symm
  · exact (h field hfield).2 hmem

theorem splitOn_flatMap_writeRow {rows : List (List (List σ))}
    (h : ∀ row ∈ rows, ∀ field ∈ row, Bare field) :
    (rows.flatMap writeRow).splitOn newline = rows.map [tab].intercalate ++ [[]] := by
  induction rows with
  | nil => rfl
  | cons row rows ih =>
      obtain ⟨hrow, hrows⟩ := List.forall_mem_cons.mp h
      rw [List.flatMap_cons, writeRow, List.append_assoc, List.singleton_append,
        List.splitOn_append_cons_self, List.splitOn_eq_singleton (newline_notMem_intercalate hrow),
        ih hrows]
      rfl

theorem read?_flatMap_iff {rows : List (List (List σ))} (hne : ∀ row ∈ rows, row ≠ []) :
    read? (rows.flatMap writeRow) = some rows ↔ ∀ row ∈ rows, ∀ field ∈ row, Bare field := by
  constructor
  · exact bare_of_read?
  · intro h
    have hfields : (rows.map [tab].intercalate).map (·.splitOn tab) = rows := by
      rw [List.map_map]
      refine (List.map_congr_left fun row hrow => ?_).trans (List.map_id rows)
      have htab : ∀ field ∈ row, tab ∉ field := fun field hfield => (h row hrow field hfield).1
      exact List.splitOn_intercalate tab htab (hne row hrow)
    rw [read?, splitOn_flatMap_writeRow h, if_pos List.getLast?_concat, List.dropLast_concat, hfields]

end Sheet

open Sheet

theorem Printable.bare {t : Text} (h : Printable t) : Bare t :=
  ⟨h.notMem (by decide +kernel), h.notMem (by decide +kernel)⟩

namespace Utf8

theorem encode_intercalate {c : Char} (hc : c.toNat < 0x80) (ts : List Text) :
    encode ([Alphabet.letter c].intercalate ts) = [Alphabet.letter c].intercalate (ts.map encode) := by
  induction ts with
  | nil => rfl
  | cons t ts ih =>
      cases ts with
      | nil => simp only [List.map_cons, List.map_nil, List.intercalate_singleton]
      | cons u ts =>
          rw [List.intercalate_cons_cons, encode_append, encode_append, ih, encode_cons,
            encodeGlyph_letter hc, encode_nil, List.append_nil]
          simp only [List.map_cons, List.intercalate_cons_cons]

theorem encode_writeRow (fields : List Text) :
    encode (writeRow fields) = writeRow (fields.map encode) := by
  rw [writeRow, encode_append, tab, encode_intercalate (by decide), newline, encode_cons,
    encodeGlyph_letter (by decide), encode_nil]
  rfl

theorem encode_flatMap_writeRow (rows : List (List Text)) :
    encode (rows.flatMap writeRow) = (rows.map (·.map encode)).flatMap writeRow := by
  induction rows with
  | nil => rfl
  | cons row rows ih => rw [List.flatMap_cons, encode_append, encode_writeRow, ih]; rfl

theorem bare_encode_iff {t : Text} : Bare (encode t) ↔ Bare t :=
  and_congr (not_congr (letter_mem_encode_iff (by decide)))
    (not_congr (letter_mem_encode_iff (by decide)))

end Utf8

theorem Path.bare_toText {p : Path} (h : ∀ c ∈ p.components, Bare c) : Bare p.toText := by
  have hslash : Bare [slash] := Printable.bare (printable_spell (s := "/") (by decide))
  have hroot : Bare (rootText p.root) := by
    cases p.root with
    | relative => exact ⟨List.not_mem_nil, List.not_mem_nil⟩
    | single => exact hslash
    | double => exact hslash.append hslash
  rw [toText_eq, written]
  split
  · exact (printable_spell (by decide)).bare
  · exact hroot.append (bare_intercalate hslash h)

theorem Path.bare_of_mem_ofText {t c : Text} (h : Bare t) (hc : c ∈ (ofText t).components) :
    Bare c := by
  rw [components_ofText] at hc
  exact h.of_subset (mem_of_mem_componentsOf hc)

namespace Artifact

theorem bare_path {directory : Path} {module suffix : Text}
    (hdirectory : ∀ c ∈ directory.components, Bare c) (hmodule : Bare module)
    (hsuffix : Bare suffix) : Bare (path directory module suffix).toText := by
  apply Path.bare_toText
  intro c hc
  rcases mem_components_path hc with hc | hc
  · exact hdirectory c hc
  · exact (hmodule.append hsuffix).of_subset (Path.mem_of_mem_componentsOf hc)

theorem bare_suffix {override : Option Text} (h : ∀ s, override = some s → Bare s) (report : Text) :
    Bare (suffix override report) := by
  cases override with
  | some s => exact h s rfl
  | none =>
      rw [suffix, Option.getD_none]
      cases Platform.ofText report with
      | windows => exact (printable_spell (by decide)).bare
      | apple => exact (printable_spell (by decide)).bare
      | other => exact (printable_spell (by decide)).bare

end Artifact

namespace Command

open Report

def sheet (directory : Path) (suffix report : Text) : List (List Text) :=
  (modules report).map fun m =>
    [m, Text.decimal ((markers report).countP fun n => n.module = m),
      Text.decimal (offsetsOf m (markers report)).toFinset.card,
      (Artifact.path directory m suffix).toText]

variable {directory : Path} {suffix report : Text}

theorem tallies_ofText (report : Text) :
    (Groups.ofText report).tallies = (modules report).map fun m =>
      ⟨m, (offsetsOf m (markers report)).length, (offsetsOf m (markers report)).eraseDups.length⟩ := by
  rw [Groups.tallies, Groups.ofText_eq, List.map_map]
  rfl

theorem value_summarize (directory : Path) (suffix : Option Text) (report : Text) :
    (summarize directory suffix report).value =
      (Groups.ofText report).tallies.flatMap (tableRow directory (Artifact.suffix suffix report)) := by
  simp only [summarize, Traced.value_bind]
  split
  · next h => rw [h]; rfl
  · rw [Traced.value_bind, Artifact.value_chooseSuffix, Traced.value_pure]

theorem value_summarize_eq_sheet (directory : Path) (override : Option Text) (report : Text) :
    (summarize directory override report).value =
      (sheet directory (Artifact.suffix override report) report).flatMap writeRow := by
  rw [value_summarize, tallies_ofText, List.flatMap_map, sheet, List.flatMap_map]
  refine List.flatMap_congr fun m _ => ?_
  rw [tableRow, length_eraseDups, length_offsetsOf]
  rfl

theorem bare_sheet_iff (hdirectory : ∀ c ∈ directory.components, Bare c) (hsuffix : Bare suffix) :
    (∀ row ∈ sheet directory suffix report, ∀ field ∈ row, Bare field) ↔
      ∀ m ∈ modules report, Bare m := by
  rw [sheet, List.forall_mem_map]
  refine forall₂_congr fun m _ => ?_
  constructor
  · exact fun h => h m (List.mem_cons_self ..)
  · intro hm
    rw [List.forall_mem_cons, List.forall_mem_cons, List.forall_mem_cons, List.forall_mem_singleton]
    exact ⟨hm, (printable_decimal _).bare, (printable_decimal _).bare,
      Artifact.bare_path hdirectory hm hsuffix⟩

theorem read?_encode_sheet_iff (hdirectory : ∀ c ∈ directory.components, Bare c)
    (hsuffix : Bare suffix) :
    Sheet.read? (Utf8.encode ((sheet directory suffix report).flatMap writeRow)) =
        some ((sheet directory suffix report).map (·.map Utf8.encode)) ↔
      ∀ m ∈ modules report, Bare m := by
  have hne : ∀ row ∈ (sheet directory suffix report).map (·.map Utf8.encode), row ≠ [] := by
    rw [sheet, List.map_map, List.forall_mem_map]
    exact fun m _ => List.cons_ne_nil _ _
  rw [Utf8.encode_flatMap_writeRow, read?_flatMap_iff hne, List.forall_mem_map,
    ← bare_sheet_iff hdirectory hsuffix]
  refine forall₂_congr fun row _ => ?_
  rw [List.forall_mem_map]
  exact forall₂_congr fun field _ => Utf8.bare_encode_iff

end Command

end Symbolication
