import Mathlib.Data.List.Forall2
import Symbolication.Proofs.Report

namespace Symbolication.Report

variable {replacements other : Replacements} {report : Text}

inductive StandIn (replacements : Replacements) (m : Marker Glyph) : Text → Prop where
  | entry {v : Text} (found : (m.spelling, v) ∈ replacements) : StandIn replacements m v
  | kept {v : Text} (missing : m.spelling ∉ Table.keys replacements) (same : v = m.spelling) :
      StandIn replacements m v

def standIn (replacements : Replacements) (m : Marker Glyph) : Text :=
  (replacements.get? m.spelling).getD m.spelling

theorem standIn_standIn (replacements : Replacements) (m : Marker Glyph) :
    StandIn replacements m (standIn replacements m) := by
  cases h : Table.get? replacements m.spelling with
  | none =>
      rw [standIn, h]
      exact .kept (Table.get?_eq_none_iff.mp h) rfl
  | some v =>
      rw [standIn, h]
      exact .entry (Table.mem_of_get? h)

theorem substitute_eq_weave (replacements : Replacements) (report : Text) :
    substitute replacements report =
      weave (gaps report (spans report)) ((spans report).map fun p => standIn replacements p.marker) :=
  splice_eq_weave (standIn replacements) report

theorem substitute_congr (h : ∀ p ∈ spans report,
      Table.get? other p.marker.spelling = Table.get? replacements p.marker.spelling) :
    substitute other report = substitute replacements report := by
  rw [substitute_eq_weave, substitute_eq_weave]
  congr 1
  refine List.map_congr_left fun p hp => ?_
  rw [standIn, standIn, h p hp]

theorem substitute_self (h : ∀ e ∈ replacements, e.2 = e.1) :
    substitute replacements report = report := by
  have hself (m : Marker Glyph) : standIn replacements m = m.spelling := by
    cases standIn_standIn replacements m with
    | entry found => exact h _ found
    | kept _ same => exact same
  exact (splice_congr fun m _ => hself m).trans (splice_spelling_self report)

structure Substituted (replacements : Replacements) (report : Text) (values : List Text) : Prop where
  length_gaps : (gaps report (spans report)).length = (spans report).length + 1
  report_eq : report = weave (gaps report (spans report))
    ((spans report).map fun p => p.marker.spelling)
  standIns : List.Forall₂ (fun p v => StandIn replacements p.marker v) (spans report) values
  result_eq : substitute replacements report = weave (gaps report (spans report)) values
  of_empty : substitute [] report = report
  of_perm : ∀ other : Replacements, other.Perm replacements →
    substitute other report = substitute replacements report
  of_reported : substitute (replacements.filter fun e =>
      e.1 ∈ (spans report).map fun p => p.marker.spelling) report =
    substitute replacements report
  of_self : (∀ e ∈ replacements, e.2 = e.1) → substitute replacements report = report

theorem substitute_weaves (h : (Table.keys replacements).Nodup) (report : Text) :
    ∃ values, Substituted replacements report values := by
  refine ⟨(spans report).map fun p => standIn replacements p.marker, ?_⟩
  constructor
  case length_gaps => exact Symbolication.length_gaps _ _
  case report_eq => rw [← splice_eq_weave, splice_spelling_self]
  case standIns =>
    rw [List.forall₂_map_right_iff, List.forall₂_same]
    exact fun p _ => standIn_standIn replacements p.marker
  case result_eq => exact substitute_eq_weave _ _
  case of_empty => exact substitute_nil report
  case of_perm =>
    intro other hperm
    exact substitute_congr fun p _ => (Table.get?_perm h hperm.symm _).symm
  case of_reported =>
    exact substitute_congr fun p hp => Table.get?_filter _ (List.mem_map_of_mem hp)
  case of_self => exact substitute_self

-- Two markers that change places. The keys for a gap and for a marker inside a name do nothing.
def crossing : Replacements :=
  [(spell "x", spell "gap"), (spell "[+0x2](b)", spell "inner"),
    (spell "[+0x3](c)", spell "[+0x1](a[+0x2](b)"), (spell "[+0x1](a[+0x2](b)", spell "[+0x3](c)")]

theorem substitute_weaves_crossing :
    (Table.keys crossing).Nodup ∧
    (∃ values, Substituted crossing (spell "x[+0x1](a[+0x2](b)x[+0x3](c)") values) ∧
    substitute crossing (spell "x[+0x1](a[+0x2](b)x[+0x3](c)") =
      spell "x[+0x3](c)x[+0x1](a[+0x2](b)" := by
  have h : (Table.keys crossing).Nodup := by decide
  exact ⟨h, substitute_weaves h _, by decide⟩

end Symbolication.Report
