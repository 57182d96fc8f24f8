import Symbolication.Proofs.Endings
import Symbolication.Proofs.Raw
import Symbolication.Proofs.Settled

namespace Symbolication

open Utf8

theorem Marker.encode_resolved (m : Marker Glyph) (block : Text) :
    encode (m.resolved block) = m.bytes.resolved (encode block) := by
  rw [resolved, encode_append, encode_cons, encodeGlyph_letter (by decide)]
  rfl

namespace Command

structure Transparent (host : Host) (command : Text) (o : Options) (input : List UInt8) (text : Text)
    (output : List UInt8) (block : Marker UInt8 → Text) : Prop where
  encodes : encodeCodes? (text.map Glyph.code) = some output
  markersOf_iff : ∀ ps, MarkersOf input ps ↔ ps = spans input
  input_eq : input = weave (gaps input (spans input)) ((spans input).map fun p => p.marker.spelling)
  output_eq : output = weave (gaps input (spans input))
    ((spans input).map fun p => p.marker.resolved (encode (block p.marker)))
  isBlockFor : ∀ p ∈ spans input, Report.IsBlockFor host command (o.path host)
    (Artifact.suffix o.suffix (decode input)) (Groups.ofText (decode input)) p.marker.decoded
    (block p.marker)
  markers_decode : (spans (decode input)).map Span.marker =
    (spans input).map fun p => p.marker.decoded
  encode_decoded : ∀ p ∈ spans input, encode p.marker.decoded.offset = p.marker.offset ∧
    encode p.marker.decoded.module = p.marker.module
  gaps_decode : (gaps (decode input) (spans (decode input))).map encode = gaps input (spans input)
  of_unmarked : spans input = [] → output = input

variable {host : Host} {o : Options} {arguments : List Text} {input : List UInt8}

theorem transparent_of_value_symbolicate {command text : Text} {workers : Int}
    (h : (Report.symbolicate host command (o.path host) o.suffix workers (decode input)).run.value =
      .ok text) : ∃ block, Transparent host command o input text (encode text) block := by
  obtain ⟨block, table, -, hblock, htext⟩ := Report.exists_blocks_of_value_symbolicate h
  have houtput : encode text = splice (fun n => n.resolved (encode (block n.decoded))) input := by
    conv_rhs => rw [← encode_decode input]
    rw [htext]
    symm
    apply splice_encode
    intro m hm
    rw [decoded_bytes hm, Job.replacement_eq, Marker.encode_resolved]
  refine ⟨fun n => block n.decoded, ?_⟩
  constructor
  case encodes => exact encodeCodes?_code text
  case markersOf_iff =>
    intro ps
    constructor
    · exact fun h => h.unique (markersOf_spans input)
    · rintro rfl
      exact markersOf_spans input
  case input_eq => rw [← splice_eq_weave, splice_spelling_self]
  case output_eq => rw [houtput, splice_eq_weave]
  case isBlockFor =>
    intro p hp
    have hm : p.marker.decoded ∈ markers (decode input) := by
      rw [markers_decode, ← map_marker_spans]
      exact List.mem_map_of_mem (List.mem_map_of_mem hp)
    exact (hblock _ hm).1
  case markers_decode =>
    rw [map_marker_spans, markers_decode, ← map_marker_spans, List.map_map]
    rfl
  case encode_decoded => exact fun p _ => ⟨encode_decode _, encode_decode _⟩
  case gaps_decode => rw [← gaps_encode, encode_decode]
  case of_unmarked =>
    intro hnone
    rw [houtput, splice_of_unmarked]
    rw [← map_marker_spans, hnone, List.map_nil]

theorem run_transparent (h : Options.ofArguments arguments = .ok o) (hreport : o.summary = false)
    (done : (run host arguments input).ending = .exit 0) :
    ∃ workers command text block, o.workers = some workers ∧
      (findSymbolizer host o.symbolizers).run.value = .ok command ∧
      (Report.symbolicate host command (o.path host) o.suffix workers (decode input)).run.value =
        .ok text ∧
      Transparent host command o input text (run host arguments input).output block := by
  obtain ⟨workers, command, text, asked, found, hvalue, houtput⟩ :=
    (completes_run h done).report (by simp [hreport])
  obtain ⟨block, hblock⟩ := transparent_of_value_symbolicate hvalue
  rw [houtput]
  exact ⟨workers, command, text, block, asked, found, hvalue, hblock⟩

def roughInput : List UInt8 :=
  [0xFF] ++ spell "[+0x1](m" ++ [0xC3] ++ spell ")" ++ [0xE2, 0x82] ++ spell "[+0x2](n)[+0x1](m" ++
    [0xC3] ++ spell ")" ++ [0x80]

theorem run_transparent_terseHost :
    (run Report.terseHost [] roughInput).ending = .exit 0 ∧
    ∃ workers command text block, Options.workers {} = some workers ∧
      (findSymbolizer Report.terseHost []).run.value = .ok command ∧
      (Report.symbolicate Report.terseHost command (Options.path {} Report.terseHost) none workers
        (decode roughInput)).run.value = .ok text ∧
      Transparent Report.terseHost command {} roughInput text
        ([0xFF] ++ spell "m" ++ [0xC3] ++ spell "+p\np" ++ [0xE2, 0x82] ++ spell "n+rm" ++ [0xC3] ++
          spell "+p\np" ++ [0x80]) block := by
  have h : Options.ofArguments [] = .ok {} := rfl
  have done : (run Report.terseHost [] roughInput).ending = .exit 0 := by
    rw [run, h]
    decide +kernel
  have houtput : (run Report.terseHost [] roughInput).output =
      [0xFF] ++ spell "m" ++ [0xC3] ++ spell "+p\np" ++ [0xE2, 0x82] ++ spell "n+rm" ++ [0xC3] ++
        spell "+p\np" ++ [0x80] := by
    rw [run, h]
    decide +kernel
  rw [← houtput]
  exact ⟨done, run_transparent h rfl done⟩

end Command

end Symbolication
