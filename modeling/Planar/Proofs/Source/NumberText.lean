import Planar.Proofs.Run.Alike
import Planar.Proofs.Source.RoundTrip

/-!
# Number text read back

The text of a finite double is one numeral, after a dash if the double is negative, and is read as
an equal double. So it tells doubles apart exactly as equality does: both zeros have one text, and
no other two doubles have.

* `exists_scan_formatNumber` — the text of a finite double is scanned as a number equal to it;
* `eq_of_formatNumber` — doubles of one text are equal;
* `formatNumber_reads_back` — what the text of a finite double is, and which doubles have it.
-/

namespace Planar

open Grammar (Number)

theorem Grammar.Number.map_kind (n : Number) :
    n.tokens.map (·.kind) = if n.dash.isSome then [.dash, .number] else [.number] := by
  obtain ⟨_ | dash, magnitude⟩ := n
  · exact congrArg (fun k => [k]) magnitude.sort_token.1
  · exact congrArg₂ (fun k k' => [k, k']) dash.sort_token magnitude.sort_token.1

/-- The text of a finite double is scanned as a number equal to it, with a dash if the double is less
than zero. -/
theorem exists_scan_formatNumber {x : Float} (h : x.isFinite = true) :
    ∃ text, ∃ n : Number, formatNumber x = .ok text ∧ Token.scan text = .ok n.tokens ∧
      Scalar.eq n.value x = true ∧ n.dash.isSome = Scalar.lt x Scalar.zero := by
  obtain ⟨negative, m, q, hx⟩ := (Double.isFinite_iff x).1 h
  obtain ⟨text, htext, hspelled⟩ := spelled_of_ofFloat hx
  obtain ⟨n, ⟨hvalue, hdash⟩, hscans⟩ := hspelled.scans 1 1
  have hne : text.toList ≠ [] := by
    intro hnil
    have hempty := hscans.scanLine_eq
    rw [hnil, Token.scanLine] at hempty
    have hkinds := n.map_kind
    rw [← Except.ok.inj hempty] at hkinds
    split at hkinds <;> cases hkinds
  have hscan := hscans.scan_ofList hne hspelled.inline
  rw [String.ofList_toList] at hscan
  exact ⟨text, n, htext, hscan, hvalue, by rw [hdash, Double.lt_zero_eq hx]⟩

theorem isFinite_of_formatNumber {x : Float} {text : String} (h : formatNumber x = .ok text) :
    x.isFinite = true := by
  rw [Double.isFinite_iff]
  unfold formatNumber numberText? at h
  cases hx : Double.ofFloat x with
  | finite negative m q => exact ⟨negative, m, q, rfl⟩
  | nan => rw [hx] at h; cases h
  | infinite negative => rw [hx] at h; cases h

/-- Doubles that have one text are equal, since the text is read in one way. -/
theorem eq_of_formatNumber {x y : Float} {text : String} (hx : formatNumber x = .ok text)
    (hy : formatNumber y = .ok text) : Scalar.eq y x = true := by
  obtain ⟨_, n, htext, hscan, hvalue, _⟩ := exists_scan_formatNumber (isFinite_of_formatNumber hx)
  obtain ⟨_, n', htext', hscan', hvalue', _⟩ :=
    exists_scan_formatNumber (isFinite_of_formatNumber hy)
  cases htext.symm.trans hx
  cases htext'.symm.trans hy
  have htokens : n.tokens ++ [] = n'.tokens ++ [] := by
    rw [List.append_nil, List.append_nil]
    exact Except.ok.inj (hscan.symm.trans hscan')
  obtain ⟨rfl, _⟩ := Number.tokens_append_inj.1 htokens
  exact eq_of_eq_of_eq hvalue' hvalue

/-- The text of a finite double is one numeral, after a dash exactly if the double is less than zero;
it is read to its end as an equal double; and it is the text of the doubles equal to this one and of
no others. -/
theorem formatNumber_reads_back (x : Float) (h : x.isFinite = true) :
    ∃ text ts, formatNumber x = .ok text ∧ Token.scan text = .ok ts ∧
      ts.map (·.kind) = (if x < 0 then [.dash, .number] else [.number]) ∧
      (∃ y, Parser.Takes (Parser.number ts) y [] ∧ (y == x) = true) ∧
      ∀ y, formatNumber y = formatNumber x ↔ (y == x) = true := by
  obtain ⟨text, n, htext, hscan, hvalue, hdash⟩ := exists_scan_formatNumber h
  refine ⟨text, n.tokens, htext, hscan, ?_, ⟨n.value, ?_, hvalue⟩, fun y => ⟨?_, ?_⟩⟩
  · have hless : n.dash.isSome = decide (x < 0) := hdash
    simp only [n.map_kind, hless, decide_eq_true_eq]
  · exact Parser.takes_number.2 ⟨n, (List.append_nil _).symm, rfl⟩
  · intro heq
    exact eq_of_formatNumber htext (heq.trans htext)
  · exact fun heq => (alike_of_eq heq).formatNumber_eq

/-- The negative double closest to zero. -/
theorem formatNumber_reads_back_least :
    (-5e-324 : Float).isFinite = true ∧ ∃ text ts, formatNumber (-5e-324) = .ok text ∧
      Token.scan text = .ok ts ∧ ts.map (·.kind) = [.dash, .number] ∧
      (∃ y, Parser.Takes (Parser.number ts) y [] ∧ (y == -5e-324) = true) ∧
      ∀ y, formatNumber y = formatNumber (-5e-324) ↔ (y == -5e-324) = true := by
  have hfinite : (-5e-324 : Float).isFinite = true := by decide +kernel
  have hless : (-5e-324 : Float) < 0 := by decide +kernel
  have hread := formatNumber_reads_back (-5e-324) hfinite
  rw [if_pos hless] at hread
  exact ⟨hfinite, hread⟩

end Planar
