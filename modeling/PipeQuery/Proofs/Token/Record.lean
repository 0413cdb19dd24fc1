-- SUMMARY: A token in range is read back from its record, so that no two tokens write the same one.
import PipeQuery.Proofs.Json.Format
import PipeQuery.Token.Record

/-! # Reading Records Back

In any lawful format, fields with different names are found each under its own one, kinds and
channels have different names, and numbers in range are not cut. -/

namespace PipeQuery

/-! ## Choices -/

theorem TokenKind.mem_all (k : TokenKind) : k ∈ TokenKind.all := by
  cases k with
  | command word => cases word <;> decide
  | clause word => cases word <;> decide
  | comparison op => cases op <;> decide
  | arithmetic op => cases op <;> decide
  | punctuation mark => cases mark <;> decide
  | literal kind => cases kind <;> decide
  | naming kind => cases kind <;> decide
  | trivia mode kind => cases mode <;> cases kind <;> decide
  | eof | unknown | unknownCommand | assign | castOp | param | namedParam => decide

/-- Where all names are different, each one finds what it is the name of. -/
theorem find?_of_nodup {α : Type} {name : α → String} {all : List α} {a : α}
    (hall : (all.map name).Nodup) (h : a ∈ all) : all.find? (name · == name a) = some a := by
  induction all with
  | nil => exact absurd h List.not_mem_nil
  | cons b bs ih =>
    rw [List.map_cons, List.nodup_cons] at hall
    rcases List.mem_cons.1 h with rfl | hmem
    · exact List.find?_cons_of_pos BEq.rfl
    · have hne : name b ≠ name a := fun heq => hall.1 (heq ▸ List.mem_map_of_mem hmem)
      rw [List.find?_cons_of_neg (by simpa using hne)]
      exact ih hall.2 hmem

/-- No two kinds have the same name. -/
theorem TokenKind.nodup_names : (TokenKind.all.map (·.name)).Nodup := by
  decide +kernel

theorem TokenKind.ofName?_name (k : TokenKind) : TokenKind.ofName? k.name = some k :=
  find?_of_nodup nodup_names k.mem_all

theorem Channel.ofLabel?_label (c : Channel) : Channel.ofLabel? c.label = some c := by
  cases c <;> decide

section Lawful

variable {F : RecordFormat} (hF : F.Lawful)

include hF

theorem TokenKind.exists_encode (k : TokenKind) : ∃ cs, F.choice k.name = .ok cs ∧
    (F.choice? (TokenKind.all.map (·.name)) cs).bind TokenKind.ofName? = some k := by
  obtain ⟨cs, hcs, hread⟩ :=
    hF.choice _ k.name TokenKind.nodup_names (List.mem_map.2 ⟨k, k.mem_all, rfl⟩)
  exact ⟨cs, hcs, by rw [hread, Option.bind_some, ofName?_name]⟩

theorem Channel.exists_encode (c : Channel) : ∃ cs, F.choice c.label = .ok cs ∧
    (F.choice? (Channel.all.map (·.label)) cs).bind Channel.ofLabel? = some c := by
  obtain ⟨cs, hcs, hread⟩ :=
    hF.choice (Channel.all.map (·.label)) c.label (by decide) (by cases c <;> decide)
  exact ⟨cs, hcs, by rw [hread, Option.bind_some, ofLabel?_label]⟩

/-! ## Places -/

/-- A position in range is written, and read back from its record. -/
theorem Position.exists_encode {p : Position} (h : p.InRange) :
    ∃ cs, p.encode F = .ok cs ∧ F.Writes cs ∧ Position.decode? F cs = some p := by
  obtain ⟨hoffset, hline, hcolumn⟩ := h
  have hnatural : ∀ n most, n ≤ most → most ≤ maxOffset →
      ∃ cs, F.natural n = .ok cs ∧ F.natural? most cs = some n := by
    intro n most hn hmost
    have hlt : n < UInt64.size := Nat.lt_of_le_pred (by decide) (Nat.le_trans hn hmost)
    obtain ⟨cs, hcs, hread⟩ := hF.natural n hlt
    exact ⟨cs, hcs, hread most hn⟩
  obtain ⟨o, ho, hreado⟩ := hnatural p.offset maxOffset hoffset (Nat.le_refl _)
  obtain ⟨l, hl, hreadl⟩ := hnatural p.line maxLine hline (by decide)
  obtain ⟨c, hc, hreadc⟩ := hnatural p.column maxLine hcolumn (by decide)
  have hparts : ∀ m ∈ [("offset", o), ("line", l), ("column", c)], F.Writes m.2 := by
    simp [RecordFormat.Writes.natural ho, RecordFormat.Writes.natural hl,
      RecordFormat.Writes.natural hc]
  obtain ⟨cs, hcs, hfields⟩ := hF.record _ (by simp) hparts
  have hread : F.fields? ["offset", "line", "column"] cs = some [o, l, c] := hfields
  refine ⟨cs, ?_, .record hparts hcs, ?_⟩
  · rw [encode, ho, hl, hc]
    exact hcs
  · simp [decode?, hread, hreado, hreadl, hreadc]

theorem Span.exists_encode {s : Span} (h : s.InRange) :
    ∃ cs, s.encode F = .ok cs ∧ F.Writes cs ∧ Span.decode? F cs = some s := by
  obtain ⟨a, ha, hwritesa, hreada⟩ := Position.exists_encode hF h.1
  obtain ⟨b, hb, hwritesb, hreadb⟩ := Position.exists_encode hF h.2
  have hparts : ∀ m ∈ [("start", a), ("end", b)], F.Writes m.2 := by
    simp [hwritesa, hwritesb]
  obtain ⟨cs, hcs, hfields⟩ := hF.record _ (by simp) hparts
  have hread : F.fields? ["start", "end"] cs = some [a, b] := hfields
  refine ⟨cs, ?_, .record hparts hcs, ?_⟩
  · rw [encode, ha, hb]
    exact hcs
  · simp [decode?, hread, hreada, hreadb]

/-! ## Tokens -/

theorem Token.exists_encode {t : Token} (h : t.span.InRange) :
    ∃ cs, t.encode F = .ok cs ∧ Token.decode? F cs = some t := by
  obtain ⟨k, hk, hreadk⟩ := TokenKind.exists_encode hF t.kind
  obtain ⟨x, hx, hreadx⟩ := hF.text t.text
  obtain ⟨s, hs, hwritess, hreads⟩ := Span.exists_encode hF h
  obtain ⟨c, hc, hreadc⟩ := Channel.exists_encode hF t.channel
  have hparts : ∀ m ∈ [("kind", k), ("text", x), ("span", s), ("channel", c)], F.Writes m.2 := by
    simp [RecordFormat.Writes.choice hk, RecordFormat.Writes.text hx, hwritess,
      RecordFormat.Writes.choice hc]
  obtain ⟨cs, hcs, hfields⟩ := hF.record _ (by simp) hparts
  have hread : F.fields? ["kind", "text", "span", "channel"] cs = some [k, x, s, c] := hfields
  refine ⟨cs, ?_, ?_⟩
  · rw [encode, hk, hx, hs, hc]
    exact hcs
  · obtain ⟨name, hname, hkind⟩ := Option.bind_eq_some_iff.1 hreadk
    obtain ⟨label, hlabel, hchannel⟩ := Option.bind_eq_some_iff.1 hreadc
    simp [decode?, hread, hname, hkind, hreadx, hreads, hlabel, hchannel]

/-- In any lawful format a token is written, whatever its text and in whatever order its ends
stand. It is read back from its record, and it is the only token with that record. -/
theorem Token.decode?_encode {t : Token} (h : t.span.InRange) :
    ∃ cs, t.encode F = .ok cs ∧ Token.decode? F cs = some t ∧
      ∀ u : Token, u.span.InRange → u.encode F = .ok cs → u = t := by
  obtain ⟨cs, hcs, hread⟩ := Token.exists_encode hF h
  refine ⟨cs, hcs, hread, fun u hu hsame => ?_⟩
  obtain ⟨ds, hds, hreadu⟩ := Token.exists_encode hF hu
  obtain rfl : ds = cs := Except.ok.inj (hds.symm.trans hsame)
  exact Option.some.inj (hreadu.symm.trans hread)

end Lawful

/-- In JSON: the largest offset, a stop before its start, and a text of quotes, escapes, control
characters and others. -/
theorem Token.decode?_encode_of_reversed_span :
    let t : Token :=
      { kind := .trivia .setting .blockComment
        text := "/*\"\\\n\x01ü😀*/"
        span := ⟨⟨18446744073709551615, 4294967295, 0⟩, ⟨0, 0, 4294967295⟩⟩
        channel := .hidden }
    Json.recordFormat.Lawful ∧ t.span.InRange ∧
      ∃ cs, t.encode Json.recordFormat = .ok cs ∧ Token.decode? Json.recordFormat cs = some t ∧
        ∀ u : Token, u.span.InRange → u.encode Json.recordFormat = .ok cs → u = t :=
  ⟨Json.lawful_recordFormat, by decide, Token.decode?_encode Json.lawful_recordFormat (by decide)⟩

end PipeQuery
