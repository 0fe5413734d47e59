import BargeIn.Proofs.Classifier.Content
import BargeIn.Proofs.Lexicon.Lookup

/-! What each word list can do to a ruling. The lists share one bound on the windows, and
still none is seen through another: no command is longer than the bound, so a wider one
finds the same. More interrupt entries can only turn what was swallowed into an interruption,
and more entries that may be talked over only what was mixed into what is swallowed. -/

namespace BargeIn

open Text (ascii spaced)

namespace Lexicon

variable {x y : Lexicon} {l m : WordLists} {k : PhraseKind} {ts ws : List Text}

theorem commandLength_of_le {a b : Nat} (hab : a ≤ b)
    (h : ∀ w, w <+: ts → x.has .interrupt (spaced w) = true → w.length ≤ a) :
    x.commandLength ts b = x.commandLength ts a := by
  induction b, hab using Nat.le_induction with
  | base => rfl
  | succ b hab ih =>
    rw [commandLength, if_neg, ih]
    rintro ⟨hlong, hhas⟩
    have hshort := h _ (List.take_prefix (b + 1) ts) hhas
    omega

theorem commandLength_same (h : (ofLists l).Canonical ts) (h' : (ofLists m).Canonical ts)
    (hhas : ∀ t, (ofLists m).has .interrupt t = (ofLists l).has .interrupt t) :
    (ofLists m).commandLength ts (ofLists m).maxWords =
      (ofLists l).commandLength ts (ofLists l).maxWords := by
  -- up to the larger of the two bounds both look at the same windows
  calc (ofLists m).commandLength ts (ofLists m).maxWords
      = (ofLists m).commandLength ts (max (ofLists m).maxWords (ofLists l).maxWords) :=
        (commandLength_of_le (Nat.le_max_left _ _) fun w hw =>
          length_of_command h' hw.isInfix).symm
    _ = (ofLists l).commandLength ts (max (ofLists m).maxWords (ofLists l).maxWords) :=
        commandLength_congr hhas ts _
    _ = (ofLists l).commandLength ts (ofLists l).maxWords :=
        commandLength_of_le (Nat.le_max_right _ _) fun w hw => length_of_command h hw.isInfix

theorem commandsAfter_same (h : (ofLists l).Canonical ts) (h' : (ofLists m).Canonical ts)
    (hhas : ∀ t, (ofLists m).has .interrupt t = (ofLists l).has .interrupt t) (skip : Nat) :
    (ofLists m).commandsAfter skip ts = (ofLists l).commandsAfter skip ts := by
  induction ts generalizing skip with
  | nil => cases skip <;> rfl
  | cons t ts ih =>
    -- a tail of a canonical list is canonical, whatever part of it is skipped
    have htail : ts <:+: t :: ts := (List.suffix_cons t ts).isInfix
    have ih := ih (h.window htail) (h'.window htail)
    cases skip with
    | zero =>
      rw [commandsAfter, commandsAfter, commandLength_same h h' hhas]
      split <;> rw [ih]
    | succ skip => exact ih skip

theorem Canonical.same (hstop : y.stopWords = x.stopWords) (h : x.Canonical ws) :
    y.Canonical ws := by
  intro w hw
  rw [hstop]
  exact h w hw

theorem has_mono (hstop : y.stopWords = x.stopWords)
    (hsub : ∀ p ∈ x.phrases.get k, p ∈ y.phrases.get k) {t : Text} (h : x.has k t = true) :
    y.has k t = true := by
  rw [has, List.contains_iff_mem] at h ⊢
  rw [canonicalize_same hstop]
  exact hsub _ h

theorem commands_same (hstop : (ofLists m).stopWords = (ofLists l).stopWords)
    (hinterrupt : (ofLists m).phrases.interrupt = (ofLists l).phrases.interrupt)
    (h : (ofLists l).Canonical ts) : (ofLists m).commands ts = (ofLists l).commands ts :=
  commandsAfter_same h (h.same hstop) (has_same (k := .interrupt) hstop hinterrupt) 0

theorem holdsCommand_mono (hstop : (ofLists m).stopWords = (ofLists l).stopWords)
    (hsub : ∀ p ∈ (ofLists l).phrases.interrupt, p ∈ (ofLists m).phrases.interrupt)
    (h : (ofLists l).Canonical ts) (hc : l.HoldsCommand ts) : m.HoldsCommand ts := by
  obtain ⟨w, hw, hkeeps⟩ := hc
  have hcanonical := h.window hw
  have hhas := (has_spaced_iff .interrupt hcanonical).2 hkeeps
  have hmore := has_mono (k := .interrupt) hstop hsub hhas
  exact ⟨w, hw, (has_spaced_iff .interrupt (hcanonical.same hstop)).1 hmore⟩

theorem allPassive_mono (hstop : (ofLists m).stopWords = (ofLists l).stopWords)
    (hignore : ∀ p ∈ (ofLists l).phrases.ignore, p ∈ (ofLists m).phrases.ignore)
    (hfiller : ∀ p ∈ (ofLists l).phrases.filler, p ∈ (ofLists m).phrases.filler)
    (h : (ofLists l).Canonical ts) (hp : l.AllPassive ts) : m.AllPassive ts := by
  refine CutInto.mono (fun w hw hkeeps => ?_) hp
  have hcanonical := h.window hw
  rw [← accepts_spaced_iff hcanonical, accepts, Bool.or_eq_true] at hkeeps
  rw [← accepts_spaced_iff (hcanonical.same hstop), accepts, Bool.or_eq_true]
  exact hkeeps.imp (has_mono (k := .ignore) hstop hignore) (has_mono (k := .filler) hstop hfiller)

theorem phrases_mono (hstop : (ofLists m).stopWords = (ofLists l).stopWords)
    (hsub : ∀ p ∈ l.phrases.get k, p ∈ m.phrases.get k) :
    ∀ p ∈ (ofLists l).phrases.get k, p ∈ (ofLists m).phrases.get k := by
  intro t ht
  obtain ⟨p, hp, hcanonical, hfits⟩ := mem_phrases.1 ht
  refine mem_phrases.2 ⟨p, hsub p hp, (canonicalize_same hstop p).trans hcanonical, ?_⟩
  rw [Fits, wordCount, canonicalize_same hstop]
  exact hfits

theorem swallows_or_interrupts (x : Lexicon) (ts : List Text) :
    (x.evaluate true ts).action = .swallow ∨ (x.evaluate true ts).action = .interrupt := by
  have hrespond : (x.evaluate true ts).action ≠ .respond := by
    rw [ne_eq, Ruling.action_eq_respond_iff]
    exact evaluate_speaking_ne_agentSilent x ts
  cases ha : (x.evaluate true ts).action with
  | swallow => exact Or.inl rfl
  | respond => exact absurd ha hrespond
  | interrupt => exact Or.inr rfl

theorem interrupts_iff (h : (ofLists l).Canonical ts) :
    ((ofLists l).evaluate true ts).action = .interrupt ↔
      l.HoldsCommand ts ∨ ts ≠ [] ∧ ¬ l.AllPassive ts := by
  rcases evaluate_speaking_cases h with ⟨hn, hr⟩ | ⟨hc, hr⟩ | ⟨-, hc, hp, hr⟩ | ⟨hne, -, hp, hr⟩
  · rw [hr]
    refine ⟨fun ha => absurd ha (by simp [Ruling.action]), fun hi => ?_⟩
    rcases hi with hc | ⟨hne, -⟩
    · exact absurd hn hc.ne_nil
    · exact absurd hn hne
  · rw [hr]
    exact ⟨fun _ => Or.inl hc, fun _ => rfl⟩
  · rw [hr]
    refine ⟨fun ha => absurd ha (by simp [Ruling.action]), fun hi => ?_⟩
    rcases hi with hc' | ⟨-, hp'⟩
    · exact absurd hc' hc
    · exact absurd hp hp'
  · rw [hr]
    exact ⟨fun _ => Or.inr ⟨hne, hp⟩, fun _ => rfl⟩

theorem action_more_commands (h : (ofLists l).Canonical ts) (h' : (ofLists m).Canonical ts)
    (hcommand : l.HoldsCommand ts → m.HoldsCommand ts)
    (hpassive : m.AllPassive ts → l.AllPassive ts)
    (hne : ((ofLists m).evaluate true ts).action ≠ ((ofLists l).evaluate true ts).action) :
    ((ofLists l).evaluate true ts).action = .swallow ∧
      ((ofLists m).evaluate true ts).action = .interrupt := by
  have hkept : ((ofLists l).evaluate true ts).action = .interrupt →
      ((ofLists m).evaluate true ts).action = .interrupt := by
    rw [interrupts_iff h, interrupts_iff h']
    exact Or.imp hcommand (And.imp_right (mt hpassive))
  rcases swallows_or_interrupts (ofLists l) ts with hl | hl
  · rcases swallows_or_interrupts (ofLists m) ts with hm | hm
    · exact absurd (hm.trans hl.symm) hne
    · exact ⟨hl, hm⟩
  · exact absurd ((hkept hl).trans hl.symm) hne

theorem evaluate_more_passive (h : (ofLists l).Canonical ts) (h' : (ofLists m).Canonical ts)
    (hcommands : (ofLists m).commands ts = (ofLists l).commands ts)
    (hpassive : l.AllPassive ts → m.AllPassive ts) :
    (ofLists m).evaluate true ts = (ofLists l).evaluate true ts ∨
      (ofLists l).evaluate true ts = .mixed ts ∧ (ofLists m).evaluate true ts = .passive ts := by
  by_cases hne : ts = []
  · rw [hne]
    exact Or.inl rfl
  · rw [evaluate, evaluate, if_neg hne, if_neg hne, if_pos rfl, if_pos rfl, hcommands]
    cases (ofLists l).commands ts with
    | cons p ps => exact Or.inl rfl
    | nil =>
      dsimp only
      by_cases hcover : (ofLists l).covers ts = true
      · have hmore : (ofLists m).covers ts = true :=
          (covers_iff_of_canonical h').2 (hpassive ((covers_iff_of_canonical h).1 hcover))
        rw [if_pos hcover, if_pos hmore]
        exact Or.inl rfl
      · rw [if_neg hcover]
        by_cases hmore : (ofLists m).covers ts = true
        · rw [if_pos hmore]
          exact Or.inr ⟨rfl, rfl⟩
        · rw [if_neg hmore]
          exact Or.inl rfl

/-- Of two lexicons with the same stop words, those with the same commands find the same
ones. More commands change an action only from swallowing to interrupting. With the same
commands, more phrases that may be talked over change a ruling only from mixed content to
being swallowed, and none that names commands. -/
theorem lists_change_rulings (l m : WordLists)
    (hstop : (ofLists m).stopWords = (ofLists l).stopWords) (t : Text) :
    let x := ofLists l
    let y := ofLists m
    let r := x.evaluate true (x.tokenize t)
    let s := y.evaluate true (y.tokenize t)
    (y.phrases.interrupt = x.phrases.interrupt →
      y.commands (y.tokenize t) = x.commands (x.tokenize t)) ∧
    ((∀ p ∈ x.phrases.interrupt, p ∈ y.phrases.interrupt) →
      y.phrases.ignore = x.phrases.ignore → y.phrases.filler = x.phrases.filler →
      s.action ≠ r.action → r.action = .swallow ∧ s.action = .interrupt) ∧
    (y.phrases.interrupt = x.phrases.interrupt →
      (∀ p ∈ x.phrases.ignore, p ∈ y.phrases.ignore) →
      (∀ p ∈ x.phrases.filler, p ∈ y.phrases.filler) →
      (s ≠ r → r.action = .interrupt ∧ ascii "mixed content detected: " <+: r.reason ∧
        s.action = .swallow) ∧
      (ascii "contains interrupt words: " <+: r.reason → s = r)) := by
  intro x y r s
  have htokens : y.tokenize t = x.tokenize t := tokenize_same hstop t
  have hs : s = y.evaluate true (x.tokenize t) := congrArg (y.evaluate true) htokens
  have hx : x.Canonical (x.tokenize t) := canonical_tokenize x t
  have hy : y.Canonical (x.tokenize t) := hx.same hstop
  refine ⟨fun hinterrupt => ?_, fun hinterrupt hignore hfiller hne => ?_,
    fun hinterrupt hignore hfiller => ?_⟩
  · rw [htokens]
    exact commands_same hstop hinterrupt hx
  · rw [hs] at hne ⊢
    refine action_more_commands hx hy (holdsCommand_mono hstop hinterrupt hx) ?_ hne
    exact allPassive_mono hstop.symm (fun p hp => hignore ▸ hp) (fun p hp => hfiller ▸ hp) hy
  · have hmore := evaluate_more_passive hx hy (commands_same hstop hinterrupt hx)
      (allPassive_mono hstop hignore hfiller hx)
    rw [← hs] at hmore
    constructor
    · intro hne
      obtain ⟨hr, hpassive⟩ := hmore.resolve_left hne
      rw [show r = .mixed (x.tokenize t) from hr, hpassive]
      exact ⟨rfl, List.prefix_append _ _, rfl⟩
    · intro hreason
      obtain ⟨phrases, hr⟩ := Ruling.eq_commands_of_reason hreason
      refine hmore.resolve_right fun hmixed => ?_
      rw [show x.evaluate true (x.tokenize t) = .commands phrases from hr] at hmixed
      cases hmixed.1

theorem lists_change_rulings_one_entry_more :
    let lists (p : PhraseLists) : WordLists := ⟨p, [ascii "the"], 150⟩
    let l := lists ⟨[ascii "ok"], [ascii "stop"], []⟩
    let ignoring := lists ⟨[ascii "go", ascii "ok"], [ascii "stop"], []⟩
    let interrupting := lists ⟨[ascii "ok"], [ascii "stop", ascii "OK!"], []⟩
    let filling := lists ⟨[ascii "ok"], [ascii "stop"], [ascii "you know what"]⟩
    let ruling (l : WordLists) (t : Text) := (ofLists l).evaluate true ((ofLists l).tokenize t)
    let found (l : WordLists) (t : Text) := (ofLists l).commands ((ofLists l).tokenize t)
    ((ofLists l).maxWords = 1 ∧ (ofLists filling).maxWords = 3 ∧
      found filling (ascii "the ok stop") = found l (ascii "the ok stop")) ∧
    ((ruling l (ascii "the ok")).action = .swallow ∧
      (ruling interrupting (ascii "the ok")).action = .interrupt) ∧
    ((ruling l (ascii "go")).action = .interrupt ∧
      (ruling ignoring (ascii "go")).action = .swallow) ∧
    ruling ignoring (ascii "go stop") = ruling l (ascii "go stop") := by
  intro lists l ignoring interrupting filling ruling found
  have hcommand : ∀ p ∈ (ofLists l).phrases.interrupt,
      p ∈ (ofLists interrupting).phrases.interrupt :=
    phrases_mono (k := .interrupt) rfl (by simp [l, interrupting, lists, PhraseLists.get])
  have hignore : ∀ p ∈ (ofLists l).phrases.ignore, p ∈ (ofLists ignoring).phrases.ignore :=
    phrases_mono (k := .ignore) rfl (by simp [l, ignoring, lists, PhraseLists.get])
  have hsame : found filling (ascii "the ok stop") = found l (ascii "the ok stop") :=
    (lists_change_rulings l filling rfl _).1 rfl
  have hmore : (ruling interrupting (ascii "the ok")).action ≠
      (ruling l (ascii "the ok")).action := by decide
  have hturned := (lists_change_rulings l interrupting rfl _).2.1 hcommand rfl rfl hmore
  have hpassed : ruling ignoring (ascii "go") ≠ ruling l (ascii "go") := by decide
  obtain ⟨hmixed, -, hswallowed⟩ :=
    ((lists_change_rulings l ignoring rfl _).2.2 rfl hignore (fun _ hp => hp)).1 hpassed
  have hnamed : ascii "contains interrupt words: " <+: (ruling l (ascii "go stop")).reason :=
    ⟨ascii "stop", by decide⟩
  exact ⟨⟨by decide, by decide, hsame⟩, hturned, ⟨hmixed, hswallowed⟩,
    ((lists_change_rulings l ignoring rfl _).2.2 rfl hignore fun _ hp => hp).2 hnamed⟩

end Lexicon
end BargeIn
