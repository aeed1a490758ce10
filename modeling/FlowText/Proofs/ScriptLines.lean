import FlowText.Script
import FlowText.Proofs.InstLines
import FlowText.Proofs.Results

/-!
# The lines of a script

What a line of a script says is told from the line alone: the pass to run, or nothing (`Means`). A
script is read if and only if every line says something of this kind, and the first line that does
not is the error (`Script.read_eq_ok_iff`, `Script.read_eq_error_iff`). A script that is written
with one line for each pass is read back, whatever stands between these lines
(`scripts_are_their_lines`).
-/

namespace FlowText

/-! ### Trimming -/

/-- The text neither starts nor ends with a blank. -/
structure NoBlankEnds (cs : List Char) : Prop where
  head : ∀ c ∈ cs.head?, isBlank c = false
  last : ∀ c ∈ cs.getLast?, isBlank c = false

/-- Blanks in front are dropped up to what is no blank. -/
theorem dropBlanks_append {blanks cs : List Char} (hb : IsGap blanks)
    (hc : ∀ c ∈ cs.head?, isBlank c = false) : dropBlanks (blanks ++ cs) = cs := by
  rw [hb.dropBlanks_append]
  cases cs with
  | nil => rfl
  | cons c cs => exact dropBlanks_cons (hc c rfl) cs

/-- **Trimming** leaves what stands between the blanks at both ends. -/
theorem trim_eq_iff {cs core : List Char} : trim cs = core ↔ NoBlankEnds core ∧
    ∃ before after, cs = before ++ core ++ after ∧ (∀ c ∈ before, isBlank c = true) ∧
      ∀ c ∈ after, isBlank c = true := by
  constructor
  · rintro rfl
    obtain ⟨before, hbefore, hb, hhead⟩ := exists_dropBlanks cs
    obtain ⟨after, hafter, ha, hlast⟩ := exists_dropBlanks (dropBlanks cs).reverse
    have hcut : dropBlanks cs = trim cs ++ after.reverse := by
      rw [trim, ← List.reverse_append, ← hafter, List.reverse_reverse]
    refine ⟨⟨fun c hc => ?_, fun c hc => ?_⟩, before, after.reverse, ?_, hb, fun c hc => ?_⟩
    · refine hhead c ?_
      rw [hcut, List.head?_append, Option.mem_def.1 hc]
      rfl
    · rw [trim, List.getLast?_reverse] at hc
      exact hlast c hc
    · rw [List.append_assoc, ← hcut, ← hbefore]
    · exact ha c (List.mem_reverse.1 hc)
  · rintro ⟨⟨hhead, hlast⟩, before, after, rfl, hb, ha⟩
    have hr : ∀ c ∈ after.reverse, isBlank c = true := fun c hc => ha c (List.mem_reverse.1 hc)
    rw [trim]
    cases core with
    -- nothing but blanks
    | nil =>
      have hall : dropBlanks (before ++ [] ++ after) = [] := by
        rw [dropBlanks, List.dropWhile_eq_nil_iff]
        simpa using fun c hc => hc.elim (hb c) (ha c)
      rw [hall]
      rfl
    | cons c core =>
      rw [List.append_assoc, dropBlanks_append hb (by simpa using hhead), List.reverse_append,
        dropBlanks_append hr (by rwa [List.head?_reverse]), List.reverse_reverse]

/-- A text without blanks at its ends is not trimmed. -/
theorem trim_of_noBlankEnds {cs : List Char} (h : NoBlankEnds cs) : trim cs = cs :=
  trim_eq_iff.2 ⟨h, [], [], by simp, nofun, nofun⟩

/-- A text without blanks has none at its ends. -/
theorem noBlankEnds_of_all {cs : List Char} (h : ∀ c ∈ cs, isBlank c = false) : NoBlankEnds cs :=
  ⟨fun c hc => h c (List.mem_of_mem_head? hc), fun c hc => h c (List.mem_of_mem_getLast? hc)⟩

theorem not_blank_of_all {cs : List Char} (h : cs.all (!isBlank ·) = true) :
    ∀ c ∈ cs, isBlank c = false :=
  fun c hc => by simpa using List.all_eq_true.1 h c hc

/-- A carriage return that is taken for a part of the line's ending would have been trimmed. -/
theorem trim_dropReturn (cs : List Char) : trim (dropReturn cs) = trim cs := by
  rcases dropReturn_cases cs with ⟨ds, rfl, hd⟩ | ⟨-, hd⟩
  · obtain ⟨hends, before, after, hds, hb, ha⟩ := trim_eq_iff.1 (rfl : trim ds = trim ds)
    rw [hd]
    refine (trim_eq_iff.2 ⟨hends, before, after ++ ['\r'], ?_, hb, fun c hc => ?_⟩).symm
    · conv_lhs => rw [hds]
      simp
    · rcases List.mem_append.1 hc with hc | hc
      · exact ha c hc
      · rw [List.mem_singleton.1 hc]
        decide
  · rw [hd]

/-! ### What a line means -/

/-- **What a line of a script means.** A line that is blank or a comment says nothing. A step names
a pass and its kind, on both sides of the first colon. -/
inductive Means (line : List Char) : Option (PassKind × String) → Prop where
  | blank (h : trim line = []) : Means line none
  | comment {text : List Char} (h : trim line = '#' :: text) : Means line none
  | step {kind : PassKind} {name : String} {left right : List Char}
    (hline : trim line = left ++ ':' :: right) (hfirst : ':' ∉ left)
    (hkind : trim left = kind.keyword.toList) (hname : trim right = name.toList) (hne : name ≠ "")
    (hb : ∀ c ∈ name.toList, isBlank c = false) : Means line (some (kind, name))

/-- The line is neither blank nor a comment. -/
structure Speaks (line : List Char) : Prop where
  ne_blank : trim line ≠ []
  ne_comment : ∀ text, trim line ≠ '#' :: text

/-- **What keeps a line from being a step**, though it says something. -/
inductive Faulty (line : List Char) : ScriptError → Prop where
  | noColon (hs : Speaks line) (h : ':' ∉ trim line) :
    Faulty line (.noColon (String.ofList (trim line)))
  | unknownKeyword {left right : List Char} (hs : Speaks line)
    (hline : trim line = left ++ ':' :: right)
    (hfirst : ':' ∉ left) (hkind : ∀ kind : PassKind, trim left ≠ kind.keyword.toList) :
    Faulty line (.unknownKeyword (String.ofList (trim left)))
  | badName {kind : PassKind} {left right : List Char} (hs : Speaks line)
    (hline : trim line = left ++ ':' :: right) (hfirst : ':' ∉ left)
    (hkind : trim left = kind.keyword.toList)
    (hname : trim right = [] ∨ ∃ c ∈ trim right, isBlank c = true) :
    Faulty line (.badName (String.ofList (trim right)))

/-- Blanks at the ends of a line say nothing. -/
theorem Means.of_trim_eq {line line' : List Char} {meaning : Option (PassKind × String)}
    (h : Means line meaning) (ht : trim line' = trim line) : Means line' meaning := by
  cases h with
  | blank h => exact .blank (ht.trans h)
  | comment h => exact .comment (ht.trans h)
  | step hline hfirst hkind hname hne hb => exact .step (ht.trans hline) hfirst hkind hname hne hb

/-- A step is no comment: its keyword would hold a number sign. -/
theorem speaks_of_keyword {line left right : List Char} {kind : PassKind}
    (hline : trim line = left ++ ':' :: right) (hkind : trim left = kind.keyword.toList) :
    Speaks line := by
  refine ⟨by simp [hline], fun text ht => ?_⟩
  rw [hline] at ht
  have hmem : '#' ∈ left := by
    cases left with
    | nil => simp at ht
    | cons c left => exact (List.cons.inj ht).1 ▸ List.mem_cons_self
  have hkeyword := mem_trim hmem (by decide)
  rw [hkind] at hkeyword
  cases kind <;> simp [PassKind.keyword] at hkeyword

/-- Every line means something, or there is something wrong with it. -/
theorem means_or_faulty (line : List Char) :
    (∃ meaning, Means line meaning) ∨ ∃ fault, Faulty line fault := by
  by_cases hs : Speaks line
  · by_cases hcolon : ':' ∈ trim line
    · obtain ⟨left, right, hline, hfirst⟩ := List.eq_append_cons_of_mem hcolon
      by_cases hkind : ∃ kind : PassKind, trim left = kind.keyword.toList
      · obtain ⟨kind, hkind⟩ := hkind
        by_cases hname : trim right = [] ∨ ∃ c ∈ trim right, isBlank c = true
        · exact .inr ⟨_, .badName hs hline hfirst hkind hname⟩
        · rw [not_or] at hname
          refine .inl ⟨_, .step hline hfirst hkind (String.toList_ofList).symm (fun he => ?_)
            fun c hc => ?_⟩
          · exact hname.1 (by simpa using congrArg String.toList he)
          · rw [String.toList_ofList] at hc
            exact Bool.eq_false_iff.2 fun hb => hname.2 ⟨c, hc, hb⟩
      · exact .inr ⟨_, .unknownKeyword hs hline hfirst fun kind hk => hkind ⟨kind, hk⟩⟩
    · exact .inr ⟨_, .noColon hs hcolon⟩
  · by_cases hblank : trim line = []
    · exact .inl ⟨none, .blank hblank⟩
    · have hcomment : ∃ text, trim line = '#' :: text := by
        by_contra hno
        exact hs ⟨hblank, fun text ht => hno ⟨text, ht⟩⟩
      exact .inl ⟨none, .comment hcomment.choose_spec⟩

/-! ### The line reader -/

/-- Each kind has one keyword. -/
theorem PassKind.ofKeyword?_eq_some_iff {word : String} {kind : PassKind} :
    ofKeyword? word = some kind ↔ word = kind.keyword := by
  constructor
  · intro h
    unfold ofKeyword? at h
    split at h <;> cases h <;> rfl
  · rintro rfl
    exact ofKeyword?_keyword kind

/-- A word that is no keyword names no kind. -/
theorem PassKind.ofKeyword?_eq_none {cs : List Char}
    (h : ∀ kind : PassKind, cs ≠ kind.keyword.toList) : ofKeyword? (String.ofList cs) = none := by
  rw [Option.eq_none_iff_forall_ne_some]
  intro kind hk
  exact h kind (by rw [← ofKeyword?_eq_some_iff.1 hk, String.toList_ofList])

namespace Step

/-- A name is a text without blanks that is not empty. -/
theorem isName_iff {cs : List Char} :
    isName cs = true ↔ cs ≠ [] ∧ ∀ c ∈ cs, isBlank c = false := by
  simp [isName]

/-- A line that says something is no remark. -/
theorem isRemark_eq_false {line : List Char} (h : Speaks line) : isRemark line = false := by
  rw [isRemark]
  cases ht : trim line with
  | nil => exact absurd ht h.ne_blank
  | cons c cs =>
    exact beq_eq_false_iff_ne.2 fun hc => h.ne_comment cs (hc ▸ ht)

/-- The parts in front of the first colon and behind it decide what a line is. -/
theorem ofLine?_of_colon {n : Nat} {line left right : List Char} (hs : Speaks line)
    (hline : trim line = left ++ ':' :: right) (hfirst : ':' ∉ left) :
    ofLine? n line =
      (match PassKind.ofKeyword? (String.ofList (trim left)) with
      | none => .error (.unknownKeyword (String.ofList (trim left)))
      | some kind =>
        if isName (trim right) then
          .ok (some { kind, name := String.ofList (trim right), line := n })
        else .error (.badName (String.ofList (trim right)))) := by
  have hall : ∀ c ∈ left, decide (c ≠ ':') = true := fun c hc =>
    decide_eq_true fun hcolon => hfirst (hcolon ▸ hc)
  have htake : (left ++ ':' :: right).takeWhile (· ≠ ':') = left := by
    rw [List.takeWhile_append_of_pos hall]
    simp
  have hdrop : (left ++ ':' :: right).dropWhile (· ≠ ':') = ':' :: right := by
    rw [List.dropWhile_append_of_pos hall]
    simp
  rw [ofLine?, isRemark_eq_false hs, if_neg Bool.false_ne_true]
  simp only [ofLine, hline, htake, hdrop]
  cases PassKind.ofKeyword? (String.ofList (trim left)) with
  | none => rfl
  | some kind => cases isName (trim right) <;> rfl

/-- The step on line `n`, given what the line means. -/
def numbered (n : Nat) (meaning : Option (PassKind × String)) : Option Step :=
  meaning.map fun (kind, name) => { kind, name, line := n }

/-- **A line that means something** is read so. -/
theorem ofLine?_of_means {n : Nat} {line : List Char} {meaning : Option (PassKind × String)}
    (h : Means line meaning) : ofLine? n line = .ok (numbered n meaning) := by
  cases h with
  | blank h => simp [ofLine?, isRemark, h, numbered]
  | comment h => simp [ofLine?, isRemark, h, numbered]
  | @step kind name left right hline hfirst hkind hname hne hb =>
    have hisName : isName name.toList = true :=
      isName_iff.2 ⟨fun he => hne (String.toList_eq_nil_iff.1 he), hb⟩
    rw [ofLine?_of_colon (speaks_of_keyword hline hkind) hline hfirst, hkind, String.ofList_toList,
      PassKind.ofKeyword?_keyword, hname]
    simp only [if_pos hisName, String.ofList_toList]
    rfl

/-- **A faulty line** is refused with its fault. -/
theorem ofLine?_of_faulty {n : Nat} {line : List Char} {fault : ScriptError}
    (h : Faulty line fault) : ofLine? n line = .error fault := by
  cases h with
  | noColon hs h =>
    have hdrop : (trim line).dropWhile (· ≠ ':') = [] := by
      rw [List.dropWhile_eq_nil_iff]
      exact fun c hc => decide_eq_true fun hcolon => h (hcolon ▸ hc)
    rw [ofLine?, isRemark_eq_false hs, if_neg Bool.false_ne_true]
    simp only [ofLine, hdrop]
    rfl
  | unknownKeyword hs hline hfirst hkind =>
    rw [ofLine?_of_colon hs hline hfirst, PassKind.ofKeyword?_eq_none hkind]
  | @badName kind left right hs hline hfirst hkind hname =>
    have hnot : isName (trim right) = false := by
      rw [Bool.eq_false_iff, ne_eq, isName_iff]
      rintro ⟨hne, hb⟩
      rcases hname with hnil | ⟨c, hc, hblank⟩
      · exact hne hnil
      · rw [hb c hc] at hblank
        cases hblank
    rw [ofLine?_of_colon hs hline hfirst, hkind, String.ofList_toList, PassKind.ofKeyword?_keyword]
    simp only [hnot, Bool.false_eq_true, if_false]

/-- Nothing else is read, as every line means something or has a fault. -/
theorem ofLine?_eq_ok_iff {n : Nat} {line : List Char} {r : Option Step} :
    ofLine? n line = .ok r ↔ ∃ meaning, Means line meaning ∧ r = numbered n meaning := by
  constructor
  · intro h
    rcases means_or_faulty line with ⟨meaning, hmeans⟩ | ⟨fault, hfault⟩
    · exact ⟨meaning, hmeans, Except.ok.inj (h.symm.trans (ofLine?_of_means hmeans))⟩
    · cases h.symm.trans (ofLine?_of_faulty hfault)
  · rintro ⟨meaning, hmeans, rfl⟩
    exact ofLine?_of_means hmeans

/-- Nothing else is refused. -/
theorem ofLine?_eq_error_iff {n : Nat} {line : List Char} {fault : ScriptError} :
    ofLine? n line = .error fault ↔ Faulty line fault := by
  constructor
  · intro h
    rcases means_or_faulty line with ⟨meaning, hmeans⟩ | ⟨fault', hfault⟩
    · cases h.symm.trans (ofLine?_of_means hmeans)
    · rwa [Except.error.inj (h.symm.trans (ofLine?_of_faulty hfault))]
  · exact ofLine?_of_faulty

end Step

/-- There is nothing wrong with a line that has a meaning. -/
theorem Faulty.not_means {line : List Char} {fault : ScriptError} (h : Faulty line fault)
    (meaning : Option (PassKind × String)) : ¬ Means line meaning := fun hmeans => by
  cases (Step.ofLine?_of_faulty (n := 0) h).symm.trans (Step.ofLine?_of_means hmeans)

/-! ### The script reader -/

namespace Script

/-- **The steps of a script**, given what each of its lines means. Lines are counted from one, and
those that say nothing count. -/
def ofMeanings (meanings : List (Option (PassKind × String))) : Script :=
  (meanings.zipIdx 1).filterMap fun (s, n) => Step.numbered n s

/-- A script asks for the passes that its lines name, in order. -/
theorem map_ofMeanings (meanings : List (Option (PassKind × String))) :
    (ofMeanings meanings).map (fun s => (s.kind, s.name)) = meanings.filterMap id := by
  have hpair : (fun p : Option (PassKind × String) × Nat =>
      (Step.numbered p.2 p.1).map fun s => (s.kind, s.name)) = id ∘ Prod.fst := by
    funext ⟨s, n⟩
    cases s <;> rfl
  rw [ofMeanings, List.map_filterMap, hpair, ← List.filterMap_map, List.zipIdx_map_fst]

/-- A line without meaning adds nothing at the end. -/
theorem ofMeanings_concat_none (meanings : List (Option (PassKind × String))) :
    ofMeanings (meanings ++ [none]) = ofMeanings meanings := by
  simp [ofMeanings, List.zipIdx_append, Step.numbered]

/-- Reads one line, which has `i` lines before it. -/
def readLine : List Char × Nat → Except Error (Option Step)
  | (line, i) => (Step.ofLine? (i + 1) line).mapError fun e => .parse (i + 1) (.script e)

theorem readLine_eq_ok_iff {line : List Char} {i : Nat} {r : Option Step} :
    readLine (line, i) = .ok r ↔ ∃ meaning, Means line meaning ∧
    r = Step.numbered (i + 1) meaning :=
  mapError_eq_ok_iff.trans Step.ofLine?_eq_ok_iff

/-- What is refused is reported with the number of the line. -/
theorem readLine_eq_error_iff {line : List Char} {i : Nat} {e : Error} :
    readLine (line, i) = .error e ↔
    ∃ fault, Faulty line fault ∧ e = .parse (i + 1) (.script fault) := by
  have herror : readLine (line, i) = .error e ↔
      ∃ fault, Step.ofLine? (i + 1) line = .error fault ∧ e = .parse (i + 1) (.script fault) := by
    rw [readLine]
    cases Step.ofLine? (i + 1) line <;> simp [Except.mapError, eq_comm]
  simp only [herror, Step.ofLine?_eq_error_iff]

/-- What the lines behind the first `k` mean, line by line. -/
theorem forall₂_readLine_iff {ls : List (List Char)} {k : Nat} {rs : List (Option Step)} :
    List.Forall₂ (fun p r => readLine p = .ok r) (ls.zipIdx k) rs ↔
      ∃ meanings, List.Forall₂ Means ls meanings ∧
        rs = (meanings.zipIdx (k + 1)).map fun (s, n) => Step.numbered n s := by
  induction ls generalizing k rs with
  | nil =>
    rw [List.zipIdx_nil, List.forall₂_nil_left_iff]
    constructor
    · rintro rfl
      exact ⟨[], .nil, rfl⟩
    · rintro ⟨meanings, hmeanings, rfl⟩
      cases hmeanings
      rfl
  | cons line ls ih =>
    rw [List.zipIdx_cons]
    constructor
    · intro h
      cases h with
      | cons hline hrest =>
        obtain ⟨meaning, hmeans, rfl⟩ := readLine_eq_ok_iff.1 hline
        obtain ⟨more, hmore, rfl⟩ := ih.1 hrest
        exact ⟨meaning :: more, .cons hmeans hmore, rfl⟩
    · rintro ⟨meanings, hmeanings, rfl⟩
      cases hmeanings with
      | cons hline hrest =>
        exact .cons (readLine_eq_ok_iff.2 ⟨_, hline, rfl⟩) (ih.2 ⟨_, hrest, rfl⟩)

/-- A script is read line by line. -/
theorem read_eq (text : String) :
    read text = ((lines text.toList).zipIdx.mapM readLine).map (List.filterMap id) := by
  rw [read]
  change (do let steps ← (lines text.toList).zipIdx.mapM readLine; return steps.filterMap id) = _
  cases (lines text.toList).zipIdx.mapM readLine <;> rfl

/-- **A script is accepted** if each of its lines means something. -/
theorem read_eq_ok_iff {text : String} {script : Script} :
    read text = .ok script ↔
      ∃ meanings, List.Forall₂ Means (lines text.toList) meanings ∧
        script = ofMeanings meanings := by
  have hsteps (meanings : List (Option (PassKind × String))) :
      ((meanings.zipIdx 1).map fun (s, n) => Step.numbered n s).filterMap id =
        ofMeanings meanings := by
    rw [List.filterMap_map]
    rfl
  rw [read_eq]
  constructor
  · intro h
    obtain ⟨rs, hrs, rfl⟩ := ok_of_map h
    obtain ⟨meanings, hmeanings, rfl⟩ := forall₂_readLine_iff.1 (mapM_eq_ok_iff.1 hrs)
    exact ⟨meanings, hmeanings, hsteps meanings⟩
  · rintro ⟨meanings, hmeanings, rfl⟩
    rw [mapM_eq_ok_iff.2 (forall₂_readLine_iff.2 ⟨meanings, hmeanings, rfl⟩)]
    exact congrArg Except.ok (hsteps meanings)

/-- **A script is refused** for its first faulty line. -/
theorem read_eq_error_iff {text : String} {e : Error} :
    read text = .error e ↔ ∃ before line after fault, lines text.toList = before ++ line :: after ∧
      (∀ l ∈ before, ∃ meaning, Means l meaning) ∧ Faulty line fault ∧
      e = .parse (before.length + 1) (.script fault) := by
  have hfirst : read text = .error e ↔ (lines text.toList).zipIdx.mapM readLine = .error e := by
    rw [read_eq]
    cases (lines text.toList).zipIdx.mapM readLine <;> simp [Except.map]
  rw [hfirst, mapM_eq_error_iff]
  constructor
  · rintro ⟨before', ⟨line, i⟩, after', hsplit, hok, herror⟩
    obtain ⟨before, rest, hlines, rfl, hrest⟩ := List.zipIdx_eq_append_iff.1 hsplit
    obtain ⟨l, after, rfl, hl, -⟩ := List.zipIdx_eq_cons_iff.1 hrest.symm
    obtain ⟨rfl, rfl⟩ := Prod.mk.inj hl
    obtain ⟨fault, hfault, rfl⟩ := readLine_eq_error_iff.1 herror
    refine ⟨before, line, after, fault, hlines, fun l hl => ?_, hfault, by rw [Nat.zero_add]⟩
    obtain ⟨i, hi, rfl⟩ := List.mem_iff_getElem.1 hl
    obtain ⟨r, hr⟩ := hok _ (List.mem_iff_getElem.2 ⟨i, by simpa using hi, rfl⟩)
    rw [List.getElem_zipIdx] at hr
    obtain ⟨meaning, hmeans, -⟩ := readLine_eq_ok_iff.1 hr
    exact ⟨meaning, hmeans⟩
  · rintro ⟨before, line, after, fault, hlines, hok, hfault, rfl⟩
    refine ⟨before.zipIdx, (line, before.length), after.zipIdx (before.length + 1), ?_, ?_, ?_⟩
    · rw [hlines, List.zipIdx_append, List.zipIdx_cons, Nat.zero_add]
    · rintro ⟨l, i⟩ hl
      obtain ⟨meaning, hmeans⟩ := hok l (List.fst_mem_of_mem_zipIdx hl)
      exact ⟨_, readLine_eq_ok_iff.2 ⟨meaning, hmeans, rfl⟩⟩
    · exact readLine_eq_error_iff.2 ⟨fault, hfault, rfl⟩

end Script

/-! ### Scripts that are written -/

/-- A line of a script that is written. -/
inductive ScriptLine where
  /-- a blank line or a comment -/
  | remark (text : String)
  /-- a pass to run -/
  | step (kind : PassKind) (name : String)
  deriving DecidableEq, Repr

/-- What stands at the end of a line. -/
inductive LineEnd where
  | feed
  | returnFeed
  deriving DecidableEq, Repr

/-- The characters at the end of a line. -/
def LineEnd.text : LineEnd → String
  | feed => "\n"
  | returnFeed => "\r\n"

namespace ScriptLine

/-- The written form. -/
def text : ScriptLine → String
  | remark t => t
  | step kind name => kind.keyword ++ ": " ++ name

/-- What the line means. -/
def meaning : ScriptLine → Option (PassKind × String)
  | remark _ => none
  | step kind name => some (kind, name)

/-- The line is one line. A remark is blank or a comment, and a name may be any text without
blanks. -/
def Fits : ScriptLine → Prop
  | remark t => '\n' ∉ t.toList ∧ (trim t.toList = [] ∨ ∃ more, trim t.toList = '#' :: more)
  | step _ name => name ≠ "" ∧ ∀ c ∈ name.toList, isBlank c = false

/-- **A written script.** The last line may be without an end. -/
def write : List (ScriptLine × LineEnd) → Option ScriptLine → String
  | [], none => ""
  | [], some l => l.text
  | (l, e) :: ls, last => l.text ++ e.text ++ write ls last

/-- A line that fits is one line. -/
theorem not_mem_text {l : ScriptLine} (h : l.Fits) : '\n' ∉ l.text.toList := by
  cases l with
  | remark t => exact h.1
  | step kind name =>
    have hname : '\n' ∉ name.toList := fun hn => by
      have := h.2 _ hn
      cases this
    cases kind <;> simpa [text, PassKind.keyword] using hname

/-- A line that fits means what it was written for. -/
theorem means_text {l : ScriptLine} (h : l.Fits) : Means l.text.toList l.meaning := by
  cases l with
  | remark t =>
    rcases h.2 with hblank | ⟨more, hcomment⟩
    · exact .blank hblank
    · exact .comment hcomment
  | step kind name =>
    obtain ⟨hne, hb⟩ := h
    have htext : (step kind name).text.toList =
        kind.keyword.toList ++ ':' :: ' ' :: name.toList := by
      simp [text]
    have hends : NoBlankEnds (kind.keyword.toList ++ ':' :: ' ' :: name.toList) := by
      refine ⟨fun c hc => ?_, fun c hc => ?_⟩
      · cases kind <;> cases hc <;> decide
      · have hlast : c ∈ name.toList.getLast? := by
          cases hn : name.toList with
          | nil => exact absurd (String.toList_eq_nil_iff.1 hn) hne
          | cons d ds => simpa [hn, List.getLast?_append, List.getLast?_cons_cons] using hc
        exact hb c (List.mem_of_mem_getLast? hlast)
    have hkind : NoBlankEnds kind.keyword.toList :=
      noBlankEnds_of_all (not_blank_of_all (by cases kind <;> decide))
    rw [htext]
    exact .step (trim_of_noBlankEnds hends) (by cases kind <;> decide) (trim_of_noBlankEnds hkind)
      (trim_blank_append hb) hne hb

end ScriptLine

/-- A text without a line feed is one line, or none if it is empty. -/
theorem ofText_of_not_mem {l : List Char} (h : '\n' ∉ l) :
    Lines.ofText l = ⟨if l = [] then [] else [l], false⟩ := by
  induction l with
  | nil => rfl
  | cons c cs ih =>
    rw [List.mem_cons, not_or] at h
    rw [Lines.ofText_cons, ih h.2, Lines.cons, if_neg (Ne.symm h.1), if_neg (by simp)]
    cases cs <;> simp

namespace ScriptLine

/-- The lines of a written script mean what they were written for. A last line that is empty is
none. -/
theorem exists_meanings {ls : List (ScriptLine × LineEnd)} {last : Option ScriptLine}
    (hls : ∀ p ∈ ls, p.1.Fits) (hlast : ∀ l ∈ last, l.Fits) :
    ∃ meanings, List.Forall₂ Means (lines (write ls last).toList) meanings ∧
      (ls.map (·.1.meaning) ++ last.toList.map meaning = meanings ∨
        ls.map (·.1.meaning) ++ last.toList.map meaning = meanings ++ [none]) := by
  induction ls with
  | nil =>
    cases last with
    | none => exact ⟨[], .nil, .inl rfl⟩
    | some l =>
      have hl := hlast l rfl
      have hmeans := means_text hl
      rw [write, lines, ofText_of_not_mem (not_mem_text hl)]
      by_cases hempty : l.text.toList = []
      · rw [if_pos hempty]
        refine ⟨[], .nil, .inr ?_⟩
        cases l with
        | remark t => rfl
        | step kind name => cases kind <;> simp [text, PassKind.keyword] at hempty
      · rw [if_neg hempty]
        exact ⟨[l.meaning], .cons hmeans .nil, .inl rfl⟩
  | cons p ls ih =>
    obtain ⟨l, e⟩ := p
    obtain ⟨hl, hrest⟩ := List.forall_mem_cons.1 hls
    obtain ⟨meanings, hmeanings, hall⟩ := ih hrest
    have hnot := not_mem_text hl
    -- a carriage return at the end is taken away, or would have been trimmed
    have hcut : ∃ line, lines (write ((l, e) :: ls) last).toList =
        line :: lines (write ls last).toList ∧ trim line = trim l.text.toList := by
      cases e with
      | feed =>
        have htext : (write ((l, .feed) :: ls) last).toList =
            l.text.toList ++ '\n' :: (write ls last).toList := by
          simp [write, LineEnd.text]
        rw [htext, lines_append_feed hnot]
        exact ⟨_, rfl, trim_dropReturn _⟩
      | returnFeed =>
        have htext : (write ((l, .returnFeed) :: ls) last).toList =
            (l.text.toList ++ ['\r']) ++ '\n' :: (write ls last).toList := by
          simp [write, LineEnd.text]
        rw [htext, lines_append_feed (by simpa using hnot), dropReturn_concat]
        exact ⟨_, rfl, rfl⟩
    obtain ⟨line, hline, htrim⟩ := hcut
    rw [hline]
    refine ⟨l.meaning :: meanings, .cons ((means_text hl).of_trim_eq htrim) hmeanings, ?_⟩
    exact hall.imp (congrArg (l.meaning :: ·)) (congrArg (l.meaning :: ·))

theorem read_write {ls : List (ScriptLine × LineEnd)} {last : Option ScriptLine}
    (hls : ∀ p ∈ ls, p.1.Fits) (hlast : ∀ l ∈ last, l.Fits) :
    Script.read (write ls last) = .ok
      (.ofMeanings (ls.map (·.1.meaning) ++ last.toList.map meaning)) := by
  obtain ⟨meanings, hmeanings, hall | hall⟩ := exists_meanings hls hlast
  · exact Script.read_eq_ok_iff.2 ⟨meanings, hmeanings, by rw [hall]⟩
  · exact Script.read_eq_ok_iff.2 ⟨meanings, hmeanings, by rw [hall, Script.ofMeanings_concat_none]⟩

end ScriptLine

/-- **A script is what its lines are.** It is read if and only if every line is blank, a comment or
a step, and then the steps are those on its lines, in order, each with its own line number.
Otherwise the first line that is none of these is the error, with the reason. So a script that is
written with one line for each pass and any blank lines and comments between them is read as these
passes, whatever its lines end with. -/
theorem scripts_are_their_lines :
    (∀ text script, Script.read text = .ok script ↔
      ∃ meanings, List.Forall₂ Means (lines text.toList) meanings ∧ script = .ofMeanings meanings) ∧
    (∀ text, (∃ script, Script.read text = .ok script) ↔
      ∀ line ∈ lines text.toList, ∃ meaning, Means line meaning) ∧
    (∀ text e, Script.read text = .error e ↔
      ∃ before line after fault, lines text.toList = before ++ line :: after ∧
        (∀ l ∈ before, ∃ meaning, Means l meaning) ∧ (∀ meaning, ¬ Means line meaning) ∧
        Faulty line fault ∧ e = .parse (before.length + 1) (.script fault)) ∧
    ∀ (ls : List (ScriptLine × LineEnd)) (last : Option ScriptLine),
      (∀ p ∈ ls, p.1.Fits) → (∀ l ∈ last, l.Fits) →
      ∃ script, Script.read (ScriptLine.write ls last) = .ok script ∧
        script = .ofMeanings (ls.map (·.1.meaning) ++ last.toList.map ScriptLine.meaning) ∧
        script.map (fun s => (s.kind, s.name)) =
          (ls.map Prod.fst ++ last.toList).filterMap ScriptLine.meaning := by
  refine ⟨fun text script => Script.read_eq_ok_iff, fun text => ?_, fun text e => ?_,
    fun ls last hls hlast => ?_⟩
  · constructor
    · rintro ⟨script, h⟩ line hline
      obtain ⟨meanings, hmeanings, -⟩ := Script.read_eq_ok_iff.1 h
      obtain ⟨meaning, -, hmeans⟩ := exists_mem_of_forall₂ hmeanings hline
      exact ⟨meaning, hmeans⟩
    · intro h
      cases hread : Script.read text with
      | ok script => exact ⟨script, rfl⟩
      | error e =>
        obtain ⟨before, line, after, fault, hlines, -, hfault, -⟩ :=
          Script.read_eq_error_iff.1 hread
        obtain ⟨meaning, hmeans⟩ := h line (by simp [hlines])
        exact absurd hmeans (hfault.not_means meaning)
  · rw [Script.read_eq_error_iff]
    constructor
    · rintro ⟨before, line, after, fault, hlines, hok, hfault, he⟩
      exact ⟨before, line, after, fault, hlines, hok, hfault.not_means, hfault, he⟩
    · rintro ⟨before, line, after, fault, hlines, hok, -, hfault, he⟩
      exact ⟨before, line, after, fault, hlines, hok, hfault, he⟩
  · refine ⟨_, ScriptLine.read_write hls hlast, rfl, ?_⟩
    rw [Script.map_ofMeanings, List.filterMap_append, List.filterMap_append, List.filterMap_map,
      List.filterMap_map, List.filterMap_map]
    rfl

/-- Names may hold the separators, and the comment between the steps counts as a line. -/
theorem commented_script_read :
    Script.read "# tidy: all\r\nxform_bblock: v2:#dead\n \t\nxform: #number" =
      .ok [⟨.block, "v2:#dead", 2⟩, ⟨.graph, "#number", 4⟩] := by
  obtain ⟨script, hread, rfl, -⟩ := scripts_are_their_lines.2.2.2
    [(.remark "# tidy: all", .returnFeed), (.step .block "v2:#dead", .feed), (.remark " \t", .feed)]
    (some (.step .graph "#number"))
    (List.forall_mem_cons.2 ⟨⟨by decide, .inr ⟨_, rfl⟩⟩,
      List.forall_mem_cons.2 ⟨⟨by decide, not_blank_of_all (by decide)⟩,
        List.forall_mem_cons.2 ⟨⟨by decide, .inl rfl⟩, nofun⟩⟩⟩)
    (fun l hl => by cases hl; exact ⟨by decide, not_blank_of_all (by decide)⟩)
  exact hread

end FlowText
