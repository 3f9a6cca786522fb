import Mathlib.Data.List.Forall2
import Offside.Diagnostic.Scan

/-!
# Offside.Proofs.Offenders

What is reported about tokens. **Every offender is reported once**, in the order of
the tokens and on its own line (`Diagnostic.scan_reports_offenders`). Offenders are
the words of features that are reported, and the texts that belong to no token; but
a brace that closes a dictionary does not offend, if the one that opens it does so
already.

Which braces belong together is said by `ArePartners`, without counting: the braces
between two partners are balanced. The scan knows only how many braces are open.
This number is positive before a closing brace exactly if the brace has a partner
(`openBraces_pos_iff`), since behind the last brace that is still open all others
are balanced.
-/

namespace Offside

/-- The token is a text that belongs to no other kind, and starts with `c`. -/
def Token.isStray (t : Token) (c : Char) : Bool :=
  t.kind = .error ∧ t.text.toList.head? = some c

theorem Token.isStray_iff {t : Token} {c : Char} :
    t.isStray c = true ↔ t.kind = .error ∧ t.text.toList.head? = some c := by
  simp [isStray]

theorem Token.isStray_unique {t : Token} {c d : Char} (hc : t.isStray c = true)
    (hd : t.isStray d = true) : c = d :=
  Option.some.inj ((isStray_iff.1 hc).2.symm.trans (isStray_iff.1 hd).2)

theorem Token.isStray_of_ne {t : Token} {c d : Char} (hc : t.isStray c = true) (hne : c ≠ d) :
    t.isStray d = false :=
  Bool.eq_false_iff.2 fun hd => hne (isStray_unique hc hd)

theorem Token.exists_isStray_iff {t : Token} :
    (∃ c, t.isStray c = true) ↔ t.kind = .error ∧ t.text ≠ "" := by
  constructor
  · rintro ⟨c, hc⟩
    obtain ⟨hkind, hhead⟩ := isStray_iff.1 hc
    refine ⟨hkind, fun hempty => ?_⟩
    rw [hempty] at hhead
    cases hhead
  · rintro ⟨hkind, htext⟩
    have hne : t.text.toList ≠ [] := fun h => htext (String.toList_eq_nil_iff.1 h)
    obtain ⟨c, cs, hcons⟩ := List.exists_cons_of_ne_nil hne
    exact ⟨c, isStray_iff.2 ⟨hkind, by rw [hcons]; rfl⟩⟩

namespace Registry

variable {registry : Registry} {trigger : Trigger}

theorem lookup_eq_none_iff :
    registry.lookup trigger = none ↔ ∀ f, registry.isEnabled f = true → f.trigger ≠ trigger := by
  simp [lookup, enabled, Feature.mem_all]

/-- No feature is recognised by a closing brace. -/
theorem lookup_closing (registry : Registry) : registry.lookup (.char '\x7d') = none := by
  refine lookup_eq_none_iff.2 fun f _ => ?_
  cases f <;> decide

/-- Only dictionaries are recognised by an opening brace. -/
theorem lookup_opening_eq_none_iff :
    registry.lookup (.char '\x7b') = none ↔ registry.isEnabled .dictLiteral = false := by
  rw [lookup_eq_none_iff]
  constructor
  · intro h
    exact Bool.eq_false_iff.2 fun henabled => h .dictLiteral henabled rfl
  · intro hdisabled f henabled htrigger
    cases f with
    | dictLiteral =>
        rw [hdisabled] at henabled
        cases henabled
    | _ => exact absurd htrigger (by decide)

end Registry

namespace Diagnostic

/-! ### Braces that belong together -/

/-- Every brace among the tokens has its partner among them. -/
inductive Balanced : List Token → Prop where
  | nil : Balanced []
  | other {t : Token} {ts : List Token} :
      t.isStray '\x7b' = false → t.isStray '\x7d' = false → Balanced ts → Balanced (t :: ts)
  | pair {opening closing : Token} {inner rest : List Token} :
      opening.isStray '\x7b' = true → Balanced inner → closing.isStray '\x7d' = true →
      Balanced rest → Balanced (opening :: (inner ++ closing :: rest))

/-- The tokens at two places are braces that belong together. -/
structure ArePartners (ts : List Token) (first last : Nat) : Prop where
  lt : first < last
  opening : ∃ t, ts[first]? = some t ∧ t.isStray '\x7b' = true
  closing : ∃ t, ts[last]? = some t ∧ t.isStray '\x7d' = true
  inner : Balanced ((ts.take last).drop (first + 1))

theorem Balanced.append {ts us : List Token} (hts : Balanced ts) (hus : Balanced us) :
    Balanced (ts ++ us) := by
  induction hts with
  | nil => exact hus
  | other hopening hclosing _ ih => exact .other hopening hclosing ih
  | pair hopening hinner hclosing _ _ ih =>
      rw [List.cons_append, List.append_assoc, List.cons_append]
      exact .pair hopening hinner hclosing ih

/-! ### Counting braces -/

/-- The number of open braces after a token. -/
def braceStep (braces : Nat) (t : Token) : Nat :=
  if t.isStray '\x7b' then braces + 1
  else if t.isStray '\x7d' then braces - 1
  else braces

/-- The number of braces among the tokens that are still open behind them. -/
def openBraces (ts : List Token) : Nat := ts.foldl braceStep 0

theorem braceStep_opening {t : Token} (h : t.isStray '\x7b' = true) (braces : Nat) :
    braceStep braces t = braces + 1 := if_pos h

theorem braceStep_closing {t : Token} (h : t.isStray '\x7d' = true) (braces : Nat) :
    braceStep braces t = braces - 1 := by
  have hopening : ¬ t.isStray '\x7b' = true := fun hopening =>
    absurd (Token.isStray_unique h hopening) (by decide)
  rw [braceStep, if_neg hopening, if_pos h]

theorem braceStep_other {t : Token} (hopening : t.isStray '\x7b' = false)
    (hclosing : t.isStray '\x7d' = false) (braces : Nat) : braceStep braces t = braces := by
  rw [braceStep, hopening, hclosing]
  rfl

theorem openBraces_concat (ts : List Token) (t : Token) :
    openBraces (ts ++ [t]) = braceStep (openBraces ts) t := by
  rw [openBraces, List.foldl_append]
  rfl

/-- Balanced tokens leave the number of open braces as it is. -/
theorem Balanced.foldl_braceStep {ts : List Token} (h : Balanced ts) (braces : Nat) :
    ts.foldl braceStep braces = braces := by
  induction h generalizing braces with
  | nil => rfl
  | other hopening hclosing _ ih => rw [List.foldl_cons, braceStep_other hopening hclosing, ih]
  | pair hopening _ hclosing _ ihInner ihRest =>
      rw [List.foldl_cons, List.foldl_append, List.foldl_cons, braceStep_opening hopening,
        ihInner, braceStep_closing hclosing, ihRest, Nat.add_sub_cancel]

/-- Where braces are open, the tokens can be cut at the last one of them: those
behind it are balanced, and one brace less is open before it. -/
theorem exists_cut_of_openBraces {ts : List Token} {n : Nat} (h : openBraces ts = n + 1) :
    ∃ before opening inner, ts = before ++ opening :: inner ∧ opening.isStray '\x7b' = true ∧
      Balanced inner ∧ openBraces before = n := by
  rcases List.eq_nil_or_concat' ts with rfl | ⟨us, t, hts⟩
  · cases h
  have hlength : ts.length = us.length + 1 := by rw [hts, List.length_append, List.length_singleton]
  rw [hts, openBraces_concat] at h
  cases hopening : t.isStray '\x7b' with
  | true =>
      rw [braceStep_opening hopening] at h
      exact ⟨us, t, [], hts, hopening, .nil, Nat.succ.inj h⟩
  | false =>
      cases hclosing : t.isStray '\x7d' with
      | false =>
          rw [braceStep_other hopening hclosing] at h
          obtain ⟨before, opening, inner, hcut, hbrace, hinner, hopen⟩ :=
            exists_cut_of_openBraces h
          have hlast : Balanced (inner ++ [t]) := hinner.append (.other hopening hclosing .nil)
          exact ⟨before, opening, inner ++ [t], by simp [hts, hcut], hbrace, hlast, hopen⟩
      | true =>
          -- The token closes the last brace that is open, so the one before it is next.
          rw [braceStep_closing hclosing] at h
          have hus : openBraces us = n + 1 + 1 := by omega
          obtain ⟨before, opening, inner, hcut, hbrace, hinner, hopen⟩ :=
            exists_cut_of_openBraces hus
          have hshorter : before.length ≤ us.length := by
            rw [hcut, List.length_append]
            omega
          obtain ⟨outer, first, gap, hgapCut, hfirst, hgap, hrest⟩ :=
            exists_cut_of_openBraces hopen
          have hpair : Balanced (gap ++ opening :: (inner ++ t :: [])) :=
            hgap.append (.pair hbrace hinner hclosing .nil)
          exact ⟨outer, first, _, by simp [hts, hcut, hgapCut], hfirst, hpair, hrest⟩
termination_by ts.length
decreasing_by all_goals omega

/-- Before a closing brace, a brace is open exactly if the closing one has a
partner. -/
theorem openBraces_pos_iff {before after : List Token} {t : Token} (h : t.isStray '\x7d' = true) :
    0 < openBraces before ↔ ∃ first, ArePartners (before ++ t :: after) first before.length := by
  constructor
  · intro hopen
    obtain ⟨n, hn⟩ := Nat.exists_eq_succ_of_ne_zero (Nat.ne_of_gt hopen)
    obtain ⟨outer, opening, inner, rfl, hopening, hinner, -⟩ := exists_cut_of_openBraces hn
    refine ⟨outer.length, ?_, ⟨opening, ?_, hopening⟩, ⟨t, ?_, h⟩, ?_⟩
    · rw [List.length_append, List.length_cons]
      omega
    · simp
    · simp
    · rw [List.take_left, ← List.drop_drop, List.drop_left]
      exact hinner
  · rintro ⟨first, hlt, ⟨opening, hat, hopening⟩, -, hinner⟩
    rw [List.getElem?_append_left hlt] at hat
    rw [List.take_left] at hinner
    have hcut : before = before.take first ++ opening :: before.drop (first + 1) := by
      obtain ⟨_, rfl⟩ := List.getElem?_eq_some_iff.1 hat
      rw [List.getElem_cons_drop, List.take_append_drop]
    rw [hcut, openBraces, List.foldl_append, List.foldl_cons, hinner.foldl_braceStep,
      braceStep_opening hopening]
    exact Nat.succ_pos _

/-! ### Offenders -/

/-- The token is a word. -/
def IsWord (t : Token) : Prop := t.kind = .keyword ∨ t.kind = .identifier

/-- The token shows a feature that is reported: it is the word, or starts with the
character, that the feature is recognised by. -/
def Finds (registry : Registry) (t : Token) : Prop :=
  ∃ f, registry.isEnabled f = true ∧
    (IsWord t ∧ f.trigger = .word t.text ∨ ∃ c, t.isStray c = true ∧ f.trigger = .char c)

/-- The token at a place has to be reported. -/
def Offends (registry : Registry) (ts : List Token) (place : Nat) : Prop :=
  ∃ t, ts[place]? = some t ∧
    (IsWord t ∧ Finds registry t ∨
      t.kind = .error ∧ t.text ≠ "" ∧
        ¬ (registry.isEnabled .dictLiteral = true ∧ ∃ first, ArePartners ts first place))

/-- The diagnostic is about the token: it is an error on the line of the token, with
the code of a feature if the token shows one, and the code of a stray text if not. -/
structure Describes (registry : Registry) (file : Option String) (t : Token) (d : Diagnostic) :
    Prop where
  line : d.line = t.line
  file : d.file = file
  severity : d.severity = .error
  unsupported : d.code = "KCN-UNSUPPORTED-SYNTAX" ↔ Finds registry t
  stray : d.code = "KCN-LEX-ERROR" ↔ ¬ Finds registry t

section

variable {registry : Registry} {file : Option String} {before after : List Token} {t : Token}

theorem IsWord.isStray_eq_false (h : IsWord t) (c : Char) : t.isStray c = false := by
  refine Bool.eq_false_iff.2 fun hc => ?_
  rcases h with hkind | hkind
  · rw [(Token.isStray_iff.1 hc).1] at hkind
    cases hkind
  · rw [(Token.isStray_iff.1 hc).1] at hkind
    cases hkind

theorem word_or_stray_or_neither (t : Token) :
    IsWord t ∨ (∃ c, t.isStray c = true) ∨ ¬ IsWord t ∧ ∀ c, t.isStray c = false := by
  by_cases hword : IsWord t
  · exact .inl hword
  by_cases hstray : ∃ c, t.isStray c = true
  · exact .inr (.inl hstray)
  · exact .inr (.inr ⟨hword, fun c => Bool.eq_false_iff.2 fun hc => hstray ⟨c, hc⟩⟩)

theorem finds_word_iff (h : IsWord t) :
    Finds registry t ↔ registry.lookup (.word t.text) ≠ none := by
  rw [ne_eq, Registry.lookup_eq_none_iff]
  simp [Finds, h, h.isStray_eq_false]

theorem finds_stray_iff {c : Char} (h : t.isStray c = true) :
    Finds registry t ↔ registry.lookup (.char c) ≠ none := by
  rw [ne_eq, Registry.lookup_eq_none_iff]
  constructor
  · rintro ⟨f, henabled, ⟨hword, -⟩ | ⟨d, hd, htrigger⟩⟩
    · rw [hword.isStray_eq_false c] at h
      cases h
    · obtain rfl := Token.isStray_unique h hd
      exact fun hnone => hnone f henabled htrigger
  · intro hsome
    obtain ⟨f, hf⟩ := not_forall.1 hsome
    obtain ⟨henabled, htrigger⟩ := Classical.not_imp.1 hf
    exact ⟨f, henabled, .inr ⟨c, h, not_not.1 htrigger⟩⟩

/-! ### One token -/

theorem scanToken_word (h : IsWord t) (braces : Nat) :
    scanToken registry file braces t =
      (((registry.lookup (.word t.text)).map (ofFeature file t.line)).toList, braces) := by
  rcases h with hkind | hkind <;> simp only [scanToken, hkind]

theorem scanToken_silent (hword : ¬ IsWord t) (hstray : ∀ c, t.isStray c = false) (braces : Nat) :
    scanToken registry file braces t = ([], braces) := by
  unfold scanToken
  split
  · rename_i hkind
    exact absurd (.inl hkind) hword
  · rename_i hkind
    exact absurd (.inr hkind) hword
  · rename_i hkind
    split
    · rfl
    · rename_i c cs htext
      have hc : t.isStray c = true := Token.isStray_iff.2 ⟨hkind, by rw [htext]; rfl⟩
      rw [hstray c] at hc
      cases hc
  · rfl

section

variable {c : Char} {braces : Nat}

/-- A brace that closes a reported one is passed over. -/
theorem scanToken_exempt (h : t.isStray '\x7d' = true) (hopen : 0 < braces) :
    scanToken registry file braces t = ([], braces - 1) := by
  obtain ⟨hkind, hhead⟩ := Token.isStray_iff.1 h
  obtain ⟨cs, htext⟩ := List.head?_eq_some_iff.1 hhead
  simp only [scanToken, hkind, htext, hopen, and_self, if_true]

theorem scanToken_feature (h : t.isStray c = true) (hexempt : ¬ (c = '\x7d' ∧ 0 < braces))
    {f : Feature} (hf : registry.lookup (.char c) = some f) :
    scanToken registry file braces t =
      ([ofFeature file t.line f], if c = '\x7b' then braces + 1 else braces) := by
  obtain ⟨hkind, hhead⟩ := Token.isStray_iff.1 h
  obtain ⟨cs, htext⟩ := List.head?_eq_some_iff.1 hhead
  simp only [scanToken, hkind, htext, if_neg hexempt, hf]

theorem scanToken_unknown (h : t.isStray c = true) (hexempt : ¬ (c = '\x7d' ∧ 0 < braces))
    (hnone : registry.lookup (.char c) = none) :
    scanToken registry file braces t = ([ofStray file t.line c t.text], braces) := by
  obtain ⟨hkind, hhead⟩ := Token.isStray_iff.1 h
  obtain ⟨cs, htext⟩ := List.head?_eq_some_iff.1 hhead
  simp only [scanToken, hkind, htext, if_neg hexempt, hnone]

end

/-- The number of open braces that have been reported. -/
def reportedBraces (registry : Registry) (ts : List Token) : Nat :=
  if registry.isEnabled .dictLiteral then openBraces ts else 0

theorem reportedBraces_pos_iff {ts : List Token} :
    0 < reportedBraces registry ts ↔
      registry.isEnabled .dictLiteral = true ∧ 0 < openBraces ts := by
  rw [reportedBraces]
  cases registry.isEnabled .dictLiteral <;> simp

theorem reportedBraces_concat (registry : Registry) (ts : List Token) (t : Token) :
    reportedBraces registry (ts ++ [t]) =
      if registry.isEnabled .dictLiteral then braceStep (reportedBraces registry ts) t else 0 := by
  rw [reportedBraces, openBraces_concat, reportedBraces]
  cases registry.isEnabled .dictLiteral <;> rfl

theorem reportedBraces_concat_other (hopening : t.isStray '\x7b' = false)
    (hclosing : t.isStray '\x7d' = false) (ts : List Token) :
    reportedBraces registry (ts ++ [t]) = reportedBraces registry ts := by
  rw [reportedBraces, openBraces_concat, braceStep_other hopening hclosing, reportedBraces]

section

variable {c : Char} (hc : t.isStray c = true)
  (hexempt : ¬ (c = '\x7d' ∧ 0 < reportedBraces registry before))
include hc hexempt

theorem snd_scanToken_feature {f : Feature} (hf : registry.lookup (.char c) = some f) :
    (scanToken registry file (reportedBraces registry before) t).2 =
      reportedBraces registry (before ++ [t]) := by
  rw [scanToken_feature hc hexempt hf]
  have hclosing : c ≠ '\x7d' := by
    rintro rfl
    rw [registry.lookup_closing] at hf
    cases hf
  by_cases hopening : c = '\x7b'
  · subst hopening
    have henabled : registry.isEnabled .dictLiteral = true := by
      cases hdict : registry.isEnabled .dictLiteral with
      | true => rfl
      | false =>
          rw [Registry.lookup_opening_eq_none_iff.2 hdict] at hf
          cases hf
    rw [reportedBraces_concat, if_pos henabled, braceStep_opening hc]
    rfl
  · rw [reportedBraces_concat_other (Token.isStray_of_ne hc hopening)
      (Token.isStray_of_ne hc hclosing)]
    exact if_neg hopening

theorem snd_scanToken_unknown (hnone : registry.lookup (.char c) = none) :
    (scanToken registry file (reportedBraces registry before) t).2 =
      reportedBraces registry (before ++ [t]) := by
  rw [scanToken_unknown hc hexempt hnone]
  by_cases hopening : c = '\x7b'
  · subst hopening
    rw [reportedBraces_concat, reportedBraces, Registry.lookup_opening_eq_none_iff.1 hnone]
    rfl
  by_cases hclosing : c = '\x7d'
  · subst hclosing
    have hzero : reportedBraces registry before = 0 :=
      Nat.eq_zero_of_not_pos fun hopen => hexempt ⟨rfl, hopen⟩
    rw [reportedBraces_concat, braceStep_closing hc, hzero]
    exact (ite_self 0).symm
  · rw [reportedBraces_concat_other (Token.isStray_of_ne hc hopening)
      (Token.isStray_of_ne hc hclosing)]

end

/-- The scan counts the open braces that it has reported. -/
theorem snd_scanToken (registry : Registry) (file : Option String) (before : List Token)
    (t : Token) :
    (scanToken registry file (reportedBraces registry before) t).2 =
      reportedBraces registry (before ++ [t]) := by
  rcases word_or_stray_or_neither t with hword | ⟨c, hc⟩ | ⟨hword, hsilent⟩
  · rw [scanToken_word hword,
      reportedBraces_concat_other (hword.isStray_eq_false _) (hword.isStray_eq_false _)]
  · by_cases hexempt : c = '\x7d' ∧ 0 < reportedBraces registry before
    · obtain ⟨rfl, hopen⟩ := hexempt
      rw [scanToken_exempt hc hopen, reportedBraces_concat,
        if_pos (reportedBraces_pos_iff.1 hopen).1, braceStep_closing hc]
    · cases hlookup : registry.lookup (.char c) with
      | some f => exact snd_scanToken_feature hc hexempt hlookup
      | none => exact snd_scanToken_unknown hc hexempt hlookup
  · rw [scanToken_silent hword hsilent, reportedBraces_concat_other (hsilent _) (hsilent _)]

/-- A token offends if it is the word of a feature, or a stray text other than a brace
that closes a reported one. -/
theorem offends_iff :
    Offends registry (before ++ t :: after) before.length ↔
      IsWord t ∧ Finds registry t ∨
        ∃ c, t.isStray c = true ∧ ¬ (c = '\x7d' ∧ 0 < reportedBraces registry before) := by
  have hat : (before ++ t :: after)[before.length]? = some t := by simp
  have hexempt {c : Char} (hc : t.isStray c = true) :
      (registry.isEnabled .dictLiteral = true ∧
        ∃ first, ArePartners (before ++ t :: after) first before.length) ↔
      c = '\x7d' ∧ 0 < reportedBraces registry before := by
    rw [reportedBraces_pos_iff]
    constructor
    · rintro ⟨henabled, first, hpartners⟩
      obtain ⟨u, hu, hclosing⟩ := hpartners.closing
      obtain rfl := Option.some.inj (hat.symm.trans hu)
      exact ⟨Token.isStray_unique hc hclosing, henabled,
        (openBraces_pos_iff hclosing).2 ⟨first, hpartners⟩⟩
    · rintro ⟨rfl, henabled, hopen⟩
      exact ⟨henabled, (openBraces_pos_iff hc).1 hopen⟩
  constructor
  · rintro ⟨u, hu, hoffence⟩
    obtain rfl := Option.some.inj (hat.symm.trans hu)
    refine hoffence.imp_right ?_
    rintro ⟨hkind, htext, hreported⟩
    obtain ⟨c, hc⟩ := Token.exists_isStray_iff.2 ⟨hkind, htext⟩
    exact ⟨c, hc, fun h => hreported ((hexempt hc).2 h)⟩
  · intro hoffence
    refine ⟨t, hat, hoffence.imp_right ?_⟩
    rintro ⟨c, hc, hreported⟩
    obtain ⟨hkind, htext⟩ := Token.exists_isStray_iff.1 ⟨c, hc⟩
    exact ⟨hkind, htext, fun h => hreported ((hexempt hc).1 h)⟩

theorem unsupported_ne_stray : "KCN-UNSUPPORTED-SYNTAX" ≠ "KCN-LEX-ERROR" := by decide

theorem describes_ofFeature (h : Finds registry t) (file : Option String) (f : Feature) :
    Describes registry file t (ofFeature file t.line f) :=
  ⟨rfl, rfl, rfl, iff_of_true rfl h, iff_of_false unsupported_ne_stray (not_not_intro h)⟩

theorem describes_ofStray (h : ¬ Finds registry t) (file : Option String) (c : Char) :
    Describes registry file t (ofStray file t.line c t.text) :=
  ⟨rfl, rfl, rfl, iff_of_false unsupported_ne_stray.symm h, iff_of_true rfl h⟩

/-- One diagnostic is made for an offender. -/
theorem scanToken_of_offends (file : Option String)
    (h : Offends registry (before ++ t :: after) before.length) :
    ∃ d, (scanToken registry file (reportedBraces registry before) t).1 = [d] ∧
      Describes registry file t d := by
  rcases offends_iff.1 h with ⟨hword, hfinds⟩ | ⟨c, hc, hexempt⟩
  · obtain ⟨f, hf⟩ := Option.ne_none_iff_exists'.1 ((finds_word_iff hword).1 hfinds)
    refine ⟨ofFeature file t.line f, ?_, describes_ofFeature hfinds file f⟩
    rw [scanToken_word hword, hf]
    rfl
  · cases hlookup : registry.lookup (.char c) with
    | some f =>
        have hfinds : Finds registry t := (finds_stray_iff hc).2 (by simp [hlookup])
        rw [scanToken_feature hc hexempt hlookup]
        exact ⟨_, rfl, describes_ofFeature hfinds file f⟩
    | none =>
        have hfinds : ¬ Finds registry t := fun h => (finds_stray_iff hc).1 h hlookup
        rw [scanToken_unknown hc hexempt hlookup]
        exact ⟨_, rfl, describes_ofStray hfinds file c⟩

/-- No diagnostic is made for a token that does not offend. -/
theorem scanToken_of_not_offends (h : ¬ Offends registry (before ++ t :: after) before.length) :
    (scanToken registry file (reportedBraces registry before) t).1 = [] := by
  rw [offends_iff, not_or] at h
  rcases word_or_stray_or_neither t with hword | ⟨c, hc⟩ | ⟨hword, hsilent⟩
  · have hnone : registry.lookup (.word t.text) = none :=
      not_not.1 fun hsome => h.1 ⟨hword, (finds_word_iff hword).2 hsome⟩
    rw [scanToken_word hword, hnone]
    rfl
  · obtain ⟨rfl, hopen⟩ := not_not.1 fun hexempt => h.2 ⟨c, hc, hexempt⟩
    rw [scanToken_exempt hc hopen]
  · rw [scanToken_silent hword hsilent]

end

/-! ### All tokens -/

/-- The diagnostic is about the token at a place. -/
def DescribesAt (registry : Registry) (file : Option String) (ts : List Token) (place : Nat)
    (d : Diagnostic) : Prop :=
  ∃ t, ts[place]? = some t ∧ Describes registry file t d

theorem scanFrom_cons (registry : Registry) (file : Option String) (braces : Nat) (t : Token)
    (ts : List Token) :
    scanFrom registry file braces (t :: ts) =
      (scanToken registry file braces t).1 ++
        scanFrom registry file (scanToken registry file braces t).2 ts := rfl

/-- What is reported about the tokens behind `before` are the offenders among them. -/
theorem exists_places_scanFrom (registry : Registry) (file : Option String)
    (before ts : List Token) :
    ∃ places : List Nat, places.Pairwise (· < ·) ∧
      (∀ place, place ∈ places ↔
        before.length ≤ place ∧ Offends registry (before ++ ts) place) ∧
      List.Forall₂ (DescribesAt registry file (before ++ ts)) places
        (scanFrom registry file (reportedBraces registry before) ts) := by
  induction ts generalizing before with
  | nil =>
      refine ⟨[], .nil, fun place => ?_, .nil⟩
      refine iff_of_false List.not_mem_nil ?_
      rintro ⟨hle, t, ht, -⟩
      rw [List.append_nil, List.getElem?_eq_none hle] at ht
      cases ht
  | cons t ts ih =>
      obtain ⟨places, hordered, hplaces, hdescribed⟩ := ih (before ++ [t])
      rw [List.append_assoc, List.singleton_append] at hplaces hdescribed
      rw [List.length_append, List.length_singleton] at hplaces
      rw [scanFrom_cons, snd_scanToken]
      by_cases hoffends : Offends registry (before ++ t :: ts) before.length
      · obtain ⟨d, hd, hdescribes⟩ := scanToken_of_offends file hoffends
        rw [hd, List.singleton_append]
        have hfirst : DescribesAt registry file (before ++ t :: ts) before.length d :=
          ⟨t, by simp, hdescribes⟩
        refine ⟨before.length :: places, ?_, fun place => ?_, .cons hfirst hdescribed⟩
        · refine List.pairwise_cons.2 ⟨fun place hplace => ?_, hordered⟩
          exact ((hplaces place).1 hplace).1
        · rw [List.mem_cons, hplaces]
          constructor
          · rintro (rfl | ⟨hlt, hplace⟩)
            · exact ⟨Nat.le_refl _, hoffends⟩
            · exact ⟨Nat.le_of_succ_le hlt, hplace⟩
          · rintro ⟨hle, hplace⟩
            exact (Nat.eq_or_lt_of_le hle).imp Eq.symm fun hlt => ⟨hlt, hplace⟩
      · rw [scanToken_of_not_offends hoffends, List.nil_append]
        refine ⟨places, hordered, fun place => ?_, hdescribed⟩
        rw [hplaces]
        refine and_congr_left fun hplace => ⟨Nat.le_of_succ_le, fun hle => ?_⟩
        refine Nat.lt_of_le_of_ne hle fun heq => hoffends ?_
        rw [heq]
        exact hplace

/-- **Every offender is reported once.** The diagnostics are about the places of the
offenders, from the first to the last: the words of features that are reported, and
the texts that belong to no token. If dictionaries are reported, then a closing brace
is no offender exactly if an opening one is its partner. Each diagnostic is an error
on the line of its token, and its code says whether the token shows a feature. -/
theorem scan_reports_offenders (registry : Registry) (file : Option String) (ts : List Token) :
    ∃ places : List Nat, places.Pairwise (· < ·) ∧
      (∀ place, place ∈ places ↔ Offends registry ts place) ∧
      List.Forall₂ (DescribesAt registry file ts) places (scan registry file ts) := by
  obtain ⟨places, hordered, hplaces, hdescribed⟩ := exists_places_scanFrom registry file [] ts
  have hnone : reportedBraces registry [] = 0 := ite_self 0
  rw [hnone] at hdescribed
  exact ⟨places, hordered, fun place => by simpa using hplaces place, hdescribed⟩

end Diagnostic

end Offside
