import Symbolication.Command.Options
import Symbolication.Proofs.Attempts

namespace Symbolication.Command

theorem eq_append_of_cutValue {t name value : Text} (h : Word.cutValue t = (name, some value)) :
    t = name ++ .char '=' :: value := by
  unfold Word.cutValue at h
  split at h
  · cases h
  · next before g after hcut =>
      obtain ⟨ht, -, hg⟩ := cutWhile_eq_iff.mp hcut
      obtain ⟨rfl, hvalue⟩ := Prod.mk.inj h
      obtain rfl := Option.some.inj hvalue
      obtain rfl : g = .char '=' := by simpa using hg
      exact ht

theorem Switch.length_name {e : Text × Switch} (h : e ∈ Switch.table) (hv : e.2.takesValue) :
    2 < e.1.length := by
  have hall : ∀ e ∈ Switch.table, e.2.takesValue → 2 < e.1.length := by decide
  exact hall e h hv

namespace Word

theorem eq_append_of_abbreviated {t value : Text} {e : Text × Switch}
    {es : List (Text × Switch)} (h : abbreviated t = (es, some value)) (he : e ∈ es)
    (hv : e.2.takesValue) : ∃ name, t = name ++ .char '=' :: value := by
  unfold abbreviated at h
  split at h
  · obtain ⟨-, hvalue⟩ := Prod.mk.inj h
    exact ⟨_, eq_append_of_cutValue (Prod.ext rfl hvalue)⟩
  · obtain ⟨rfl, -⟩ := Prod.mk.inj h
    obtain ⟨htable, hname⟩ := List.mem_filter.mp he
    have hlong := Switch.length_name htable hv
    rw [of_decide_eq_true hname, List.length_take] at hlong
    omega

inductive Reads (t : Text) : Word → Prop where
  | plain : Reads t (.plain t)
  | unknown : Reads t (.unknown t)
  | name (s : Switch) : Reads t (.switch s t none)
  | joined (s : Switch) {name value : Text} (cut : cutValue t = (name, some value)) :
      Reads t (.switch s name (some value))
  | abbreviated {e : Text × Switch} {value : Option Text} (only : abbreviated t = ([e], value)) :
      Reads t (.switch e.2 e.1 value)

theorem reads_of_readAbbreviated {t : Text} {w : Word} (h : readAbbreviated t = .ok w) :
    Reads t w := by
  unfold readAbbreviated at h
  split at h
  · split at h
    · cases h
      exact .plain
    · cases h
      exact .unknown
  · next only =>
      cases h
      exact .abbreviated only
  · cases h

theorem reads_of_read {t : Text} {w : Word} (h : read t = .ok w) : Reads t w := by
  unfold read readDashed at h
  split at h
  · split at h
    · cases h
      exact .name _
    · next cut =>
        split at h
        · cases h
          exact .joined _ cut
        · exact reads_of_readAbbreviated h
    · exact reads_of_readAbbreviated h
  · cases h
    exact .plain

theorem Reads.eq_append {t name value : Text} {s : Switch}
    (h : Reads t (.switch s name (some value))) (hv : s.takesValue) :
    ∃ name', t = name' ++ .char '=' :: value := by
  cases h with
  | joined s cut => exact ⟨name, eq_append_of_cutValue cut⟩
  | abbreviated only => exact eq_append_of_abbreviated only (List.mem_singleton_self _) hv

theorem Reads.eq_plain {t u : Text} (h : Reads t (.plain u)) : u = t := by
  cases h
  rfl

structure Filled (ws : List Word) : Prop where
  joined : ∀ s name, s.takesValue → .switch s name (some (spell "--")) ∉ ws
  next : ∀ s name, ¬[.switch s name none, .plain (spell "--")] <:+: ws

theorem Filled.tail {w : Word} {ws : List Word} (h : Filled (w :: ws)) : Filled ws where
  joined s name hv hmem := h.joined s name hv (List.mem_cons_of_mem _ hmem)
  next s name hpart := h.next s name (hpart.trans (List.infix_cons (List.infix_refl _)))

theorem readAll_cons_eq_ok {t : Text} {ts : List Text} {ws : List Word}
    (h : readAll (t :: ts) = .ok ws) :
    (t = spell "--" ∧ ws = .separator :: ts.map .plain) ∨
      t ≠ spell "--" ∧ ∃ w rest, Reads t w ∧ readAll ts = .ok rest ∧ ws = w :: rest := by
  unfold readAll at h
  split at h
  · next ht =>
      cases h
      exact .inl ⟨ht, rfl⟩
  · next ht =>
      obtain ⟨w, hw, h⟩ := bind_eq_ok_iff.mp h
      obtain ⟨rest, hrest, h⟩ := bind_eq_ok_iff.mp h
      cases h
      exact .inr ⟨ht, w, rest, reads_of_read hw, hrest, rfl⟩

theorem head?_of_readAll {ts : List Text} {ws : List Word} (h : readAll ts = .ok ws) :
    ws.head? ≠ some (.plain (spell "--")) := by
  cases ts with
  | nil =>
      cases h
      simp
  | cons t ts =>
      rcases readAll_cons_eq_ok h with ⟨-, rfl⟩ | ⟨ht, w, rest, hw, -, rfl⟩
      · simp
      · intro hplain
        obtain rfl : w = .plain (spell "--") := Option.some.inj hplain
        exact ht hw.eq_plain.symm

theorem filled_of_readAll {ts : List Text} {ws : List Word} (h : readAll ts = .ok ws)
    (hts : ∀ name, name ++ spell "=--" ∉ ts) : Filled ws := by
  induction ts generalizing ws with
  | nil =>
      cases h
      exact ⟨by simp, by simp⟩
  | cons t ts ih =>
      have hlater : ∀ name, name ++ spell "=--" ∉ ts :=
        fun name hmem => hts name (List.mem_cons_of_mem _ hmem)
      rcases readAll_cons_eq_ok h with ⟨-, rfl⟩ | ⟨ht, w, rest, hw, hrest, rfl⟩
      · constructor
        · simp
        · intro s name hpart
          have hmem := hpart.mem (List.mem_cons_self ..)
          simp at hmem
      · obtain ⟨hjoined, hnext⟩ := ih hrest hlater
        constructor
        · intro s name hv hmem
          rcases List.mem_cons.mp hmem with rfl | hmem
          · obtain ⟨name', rfl⟩ := hw.eq_append hv
            exact hts name' (List.mem_cons_self ..)
          · exact hjoined s name hv hmem
        · intro s name hpart
          rcases List.infix_cons_iff.mp hpart with hfirst | hpart
          · obtain ⟨rfl, later, rfl⟩ := List.cons_prefix_cons.mp hfirst
            exact head?_of_readAll hrest rfl
          · exact hnext s name hpart

end Word

namespace Options

theorem workers_setFlag {o o' : Options} {s : Switch} (h : o.setFlag s = .ok o') :
    o'.workers = o.workers := by
  cases s <;> cases h <;> rfl

theorem workers_setFlags {o o' : Options} {ss : List Switch} (h : o.setFlags ss = .ok o') :
    o'.workers = o.workers := by
  induction ss generalizing o with
  | nil =>
      cases h
      rfl
  | cons s ss ih =>
      obtain ⟨o₁, hs, hss⟩ := bind_eq_ok_iff.mp h
      exact (ih hss).trans (workers_setFlag hs)

theorem workers_setValue {o o' : Options} {s : Switch} {value : Text}
    (h : o.setValue s value = .ok o') (hvalue : value ≠ spell "--") (ho : o.workers ≠ none) :
    o'.workers ≠ none := by
  cases s with
  | symbolizer =>
      cases h
      exact ho
  | suffix =>
      cases h
      exact ho
  | workers =>
      simp only [setValue, if_neg hvalue] at h
      split at h
      · cases h
        simp
      · cases h
  | help => cases h
  | summary => cases h
  | verbose => cases h
  | quiet => cases h

end Options

namespace Reading

@[simp] theorem workers_place (r : Reading) (t : Text) :
    (r.place t).options.workers = r.options.workers := by
  unfold place
  split <;> rfl

@[simp] theorem workers_separate (r : Reading) : r.separate.options.workers = r.options.workers := by
  unfold separate
  split <;> rfl

theorem workers_consume {r r' : Reading} {ws : List Word} (h : r.consume ws = .ok r')
    (hws : Word.Filled ws) (hr : r.options.workers ≠ none) : r'.options.workers ≠ none := by
  fun_induction consume r ws with
  | case1 r =>
      cases h
      exact hr
  | case2 r t ws ih => exact ih h hws.tail (by simpa using hr)
  | case3 r ws ih => exact ih h hws.tail (by simpa using hr)
  | case4 r t ws ih => exact ih h hws.tail hr
  | case5 r s name hs v ws ih =>
      obtain ⟨o, ho, h⟩ := bind_eq_ok_iff.mp h
      apply ih o h hws.tail
      apply Options.workers_setValue ho _ hr
      rintro rfl
      exact hws.joined s name hs (List.mem_cons_self ..)
  | case6 r s name hs v ws ih =>
      obtain ⟨o, ho, h⟩ := bind_eq_ok_iff.mp h
      apply ih o h hws.tail.tail
      apply Options.workers_setValue ho _ hr
      rintro rfl
      exact hws.next s name ⟨[], ws, rfl⟩
  | case7 => cases h
  | case8 r s name value ws hs ih =>
      obtain ⟨ss, -, h⟩ := bind_eq_ok_iff.mp h
      obtain ⟨o, ho, h⟩ := bind_eq_ok_iff.mp h
      apply ih o h hws.tail
      rw [take, Options.workers_setFlags ho]
      exact hr

end Reading

namespace Options

theorem workers_ne_none {arguments : List Text} {o : Options}
    (h : ofArguments arguments = .ok o) (hjoined : ∀ name, name ++ spell "=--" ∉ arguments) :
    o.workers ≠ none := by
  obtain ⟨ws, hws, h⟩ := bind_eq_ok_iff.mp h
  obtain ⟨r, hr, h⟩ := bind_eq_ok_iff.mp h
  split at h
  · cases h
    have hfilled := Word.filled_of_readAll (mapError_eq_ok_iff.mp hws) hjoined
    exact Reading.workers_consume hr hfilled (by simp)
  · cases h

theorem read_workers_separator : Word.read (spell "--workers=--") =
    .ok (.switch .workers (spell "--workers") (some (spell "--"))) := by
  have hwhole : Switch.named? (spell "--workers=--") = none := by decide
  have hname : Switch.named? (spell "--workers") = some .workers := by decide
  have hcut : Word.cutValue (spell "--workers=--") = (spell "--workers", some (spell "--")) := by
    decide
  rw [Word.read, if_pos (by decide), Word.readDashed, hwhole, hcut]
  dsimp only
  rw [hname]

theorem ofArguments_workers_separator :
    ofArguments [spell "--workers=--"] = .ok { workers := none } := by
  have hread : Word.readAll [spell "--workers=--"] =
      .ok [.switch .workers (spell "--workers") (some (spell "--"))] := by
    rw [Word.readAll, if_neg (by decide), read_workers_separator]
    rfl
  have hconsume : Reading.consume {} [.switch .workers (spell "--workers") (some (spell "--"))] =
      .ok (Reading.take {} { workers := none }) := by
    simp only [Reading.consume, Options.setValue, Switch.takesValue, if_true]
    rfl
  rw [ofArguments, hread]
  exact bind_eq_ok_iff.mpr ⟨_, rfl, bind_eq_ok_iff.mpr ⟨_, hconsume, rfl⟩⟩

end Options

end Symbolication.Command
