import Mathlib.Data.List.Forall2
import Mathlib.Data.List.Infix
import Tinct.Lexers.Builtin
import Tinct.Proofs.JsonLexemes

/-!
# The built-in lexers lose nothing

Whatever a text is, the fragments of a built-in lexer are the text, cut into pieces that are not
empty.  What a lexer does not know is among them: a character that starts no lexeme is an error of
its own, a JSON string without its closing quote is an error up to where it breaks off, and a
Python string, closed or not, is one string.

## Key results

- `Classifies.exists_next`: a fragment has the text of the lexeme that comes next at its place
- `Lexer.reproduces_of_mem_builtin`: the fragments of a built-in lexer are its text
- `Lexer.fragments_lossless`: and so is everything that a lexer does not know
-/

namespace Tinct

/-- The fragments of a lexer, one after the other, are always the text it was given. -/
def Lexer.Reproduces (lexer : Lexer) : Prop :=
  ∀ source, String.join ((lexer.fragments source).map (·.text)) = source

/-- The fragment is one of a list, and from it on the list has the given text. -/
def Fragment.StartsAt (f : Fragment) (fragments : List Fragment) (rest : List Char) : Prop :=
  ∃ before after, fragments = before ++ f :: after ∧ (f :: after).flatMap (·.text.toList) = rest

/-! ## Fragments of lexemes -/

section Classifies

variable {κ : Type} {fits : Option κ → Category → Prop} {lexemes : List (Lexeme κ)}
  {fragments : List Fragment}

/-- The fragments belong to lexemes, one to each, with its text and a category that fits its
    kind. -/
def Classifies (fits : Option κ → Category → Prop) (lexemes : List (Lexeme κ))
    (fragments : List Fragment) : Prop :=
  List.Forall₂ (fun l f => f.text.toList = l.text ∧ fits l.kind f.category) lexemes fragments

/-- Fragments have the text of their lexemes. -/
theorem Classifies.text_eq (h : Classifies fits lexemes fragments) :
    fragments.flatMap (·.text.toList) = lexemes.flatMap (·.text) := by
  induction h with
  | nil => rfl
  | cons hhead _ ih => rw [List.flatMap_cons, List.flatMap_cons, hhead.1, ih]

/-- The lexemes of a text, classified, are the text. -/
theorem Classifies.join_eq {g : Grammar κ} {source : String}
    (h : Classifies fits (g.lexemes source.toList) fragments) :
    String.join (fragments.map (·.text)) = source := by
  rw [← String.toList_inj, String.toList_join, List.flatMap_map, h.text_eq, g.lexemes_text]

/-- A fragment belongs to the next lexeme of the text that starts with it. -/
theorem Classifies.exists_next {g : Grammar κ} {text rest : List Char} {f : Fragment}
    (h : Classifies fits (g.lexemes text) fragments) (hf : f.StartsAt fragments rest) :
    ∃ l, g.Next rest l ∧ f.text.toList = l.text ∧ fits l.kind f.category := by
  obtain ⟨before, after, rfl, rfl⟩ := hf
  -- the lexemes split at the same place
  have hdrop := List.forall₂_drop_append _ before (f :: after) h
  obtain ⟨l, lexemes, ⟨htext, hfits⟩, hafter, hsplit⟩ := List.forall₂_cons_right_iff.mp hdrop
  have hall : g.lexemes text = (g.lexemes text).take before.length ++ l :: lexemes := by
    rw [← hsplit, List.take_append_drop]
  have hrest : (f :: after).flatMap (·.text.toList) = (l :: lexemes).flatMap (·.text) := by
    rw [List.flatMap_cons, List.flatMap_cons, htext, Classifies.text_eq hafter]
  exact ⟨l, hrest ▸ Grammar.next_of_lexemes_eq hall, htext, hfits⟩

/-- No fragment is empty. -/
theorem Classifies.text_ne_nil {g : Grammar κ} {text : List Char} {f : Fragment}
    (h : Classifies fits (g.lexemes text) fragments) (hf : f ∈ fragments) : f.text ≠ "" := by
  obtain ⟨before, after, hsplit⟩ := List.append_of_mem hf
  obtain ⟨l, hnext, htext, -⟩ := h.exists_next ⟨before, after, hsplit, rfl⟩
  have hne : f.text.toList ≠ [] := htext ▸ hnext.text_ne_nil
  exact fun hempty => hne (String.toList_eq_nil_iff.mpr hempty)

/-- Where no rule describes a beginning of the text, the fragment is one character of no kind. -/
theorem Classifies.of_unrecognized {g : Grammar κ} {text rest : List Char} {f : Fragment}
    (h : Classifies fits (g.lexemes text) fragments) (hf : f.StartsAt fragments rest)
    (hrest : g.Unrecognized rest) :
    f.text = String.ofList (rest.take 1) ∧ fits none f.category := by
  obtain ⟨l, hnext, htext, hfits⟩ := h.exists_next hf
  cases hnext with
  | unknown hcons _ => exact ⟨by rw [← String.toList_inj, htext, hcons]; simp, hfits⟩
  | longest hsplit hne hselected _ =>
    -- what is matched is a beginning of the text that a rule describes
    obtain ⟨r, hr, -, hmatches⟩ := Grammar.exists_rule_of_selected hselected
    exact absurd hmatches (hrest r hr _ hne (hsplit ▸ List.prefix_append _ _))

end Classifies

namespace Lexer

/-! ## Python -/

namespace Python

/-- The categories of string literals. -/
def stringCategories : List Category :=
  [.ofKey "Literal.String.Single", .ofKey "Literal.String.Double", .ofKey "Literal.String.Doc"]

/-- Whether a kind is that of string literals. -/
def isString : Kind → Bool
  | .string _ => true
  | _ => false

/-- Python gives a lexeme the category of its kind, unless it is a name. -/
def Fits (kind : Option Kind) (given : Category) : Prop :=
  isNameLike kind = true ∨ given = category kind

/-- The fragments are those of the lexemes, each of a category that fits. -/
theorem classifies_classify (pending : Option Category) (lexemes : List (Lexeme Kind)) :
    Classifies Fits lexemes (classify pending lexemes) := by
  induction lexemes generalizing pending with
  | nil => exact .nil
  | cons l rest ih =>
    rw [classify]
    refine .cons ⟨String.toList_ofList, ?_⟩ (ih _)
    cases hname : isNameLike l.kind with
    | true => exact .inl hname
    | false => exact .inr rfl

/-- The letters and quotes with which a string literal can start. -/
def openers : List Char := "rRbBuUfF".toList ++ ['\'', '"']

/-- The rules that are not for strings describe no text with a quote in it, or no text that starts
    like a string. -/
private theorem rules_avoid_quotes {quote : Char} (hquote : quote ∈ ['\'', '"']) :
    ∀ r ∈ rules, isString r.kind = true ∨ r.pattern.allows quote = false ∨
      (openers.all fun c => (r.pattern.after c).isNever) = true := by
  rcases List.mem_pair.mp hquote with rfl | rfl
  · decide
  · decide

/-- The start of a string literal: up to two letters and a quote of either kind. -/
def IsOpening (o : List Char) : Prop := (opening "'").Matches o ∨ (opening "\"").Matches o

/-- An opening has its quote. -/
private theorem mem_of_matches_opening {text : String} {quote : Char} {o : List Char}
    (htext : text.toList = [quote]) (h : (opening text).Matches o) : quote ∈ o := by
  obtain ⟨u, v, -, hv, rfl⟩ := Pattern.matches_seq_iff.mp h
  obtain ⟨w, x, -, hx, rfl⟩ := Pattern.matches_seq_iff.mp hv
  obtain ⟨y, z, hy, -, rfl⟩ := Pattern.matches_seq_iff.mp hx
  rw [Pattern.matches_text_iff, htext] at hy
  simp [hy]

/-- It has nothing else but the letters of prefixes. -/
private theorem mem_of_opening_allows {text : String} {c : Char}
    (h : (opening text).allows c = true) : c ∈ "rRbBuUfF".toList ∨ c ∈ text.toList := by
  simp only [opening, Pattern.inOrder, List.foldr_cons, List.foldr_nil, Pattern.allows,
    Pattern.allows_optional, Pattern.allows_anyOf, Pattern.allows_text, Bool.or_eq_true,
    List.contains_iff_mem, Bool.false_eq_true, or_false] at h
  rcases h with hletter | hletter | hquote
  · exact .inl hletter
  · exact .inl hletter
  · exact .inr hquote

/-- An opening is made of letters and quotes that open strings. -/
private theorem mem_openers_of_mem {o : List Char} {c : Char} (h : IsOpening o) (hc : c ∈ o) :
    c ∈ openers := by
  have hsingle : "'".toList = ['\''] := rfl
  have hdouble : "\"".toList = ['"'] := rfl
  refine List.mem_append.mpr ?_
  rcases h with h | h
  · have := mem_of_opening_allows (Pattern.allows_of_mem h hc)
    rw [hsingle, List.mem_singleton] at this
    exact this.imp_right fun hquote => by simp [hquote]
  · have := mem_of_opening_allows (Pattern.allows_of_mem h hc)
    rw [hdouble, List.mem_singleton] at this
    exact this.imp_right fun hquote => by simp [hquote]

/-- An opening starts with one of the letters and quotes, and has a quote in it. -/
private theorem IsOpening.shape {o : List Char} (h : IsOpening o) :
    (∃ quote ∈ ['\'', '"'], quote ∈ o) ∧ ∃ c rest, o = c :: rest ∧ c ∈ openers := by
  have hquote : ∃ quote ∈ ['\'', '"'], quote ∈ o := by
    rcases h with h | h
    · exact ⟨'\'', by simp, mem_of_matches_opening rfl h⟩
    · exact ⟨'"', by simp, mem_of_matches_opening rfl h⟩
  refine ⟨hquote, ?_⟩
  obtain ⟨quote, -, hmem⟩ := hquote
  obtain ⟨c, rest, rfl⟩ := List.exists_cons_of_ne_nil (List.ne_nil_of_mem hmem)
  exact ⟨c, rest, rfl, mem_openers_of_mem h List.mem_cons_self⟩

/-- Every opening is described by a rule. -/
private theorem exists_rule_of_isOpening {o : List Char} (h : IsOpening o) :
    ∃ r ∈ rules, r.pattern.Matches o := by
  rcases h with h | h
  · exact ⟨⟨.string .single, opening "'"⟩, by simp [rules], h⟩
  · exact ⟨⟨.string .double, opening "\""⟩, by simp [rules], h⟩

/-- Only a rule for strings describes a text that starts with an opening. -/
private theorem isString_of_matches {o found : List Char} {r : Rule Kind} (ho : IsOpening o)
    (hpre : o <+: found) (hr : r ∈ rules) (h : r.pattern.Matches found) :
    isString r.kind = true := by
  obtain ⟨⟨quote, hquote, hmem⟩, c, rest, rfl, hc⟩ := ho.shape
  rcases rules_avoid_quotes hquote r hr with hstring | hallows | hafter
  · exact hstring
  · -- the quote of the opening excludes the rule
    have := Pattern.allows_of_mem h (hpre.subset hmem)
    rw [hallows] at this
    cases this
  · -- the first character of the opening excludes the rule
    obtain ⟨tail, rfl⟩ := hpre
    exact absurd h (Pattern.not_matches_cons_of_isNever (List.all_eq_true.mp hafter c hc))

/-- A literal that is extended to its end is a string still, and no name. -/
private theorem fits_extend {kind : Kind} (hstring : isString kind = true) {found behind : List Char}
    {given : Category} (h : Fits (some (extend kind found behind).1) given) :
    given ∈ stringCategories := by
  cases kind with
  | string form =>
    rcases h with hname | hcategory
    · cases hname
    · rw [hcategory]
      simp only [extend]
      -- whatever form the extent gives, its category is one of the three
      cases (form.extent (found.getLast?.getD '"') behind).1 <;>
        simp [category, stringCategories]
  | _ => cases hstring

/-- Where a text starts with an opening, the fragment is a string that starts with it. -/
theorem fits_of_isOpening {pending : Option Category} {text rest o : List Char} {f : Fragment}
    (hf : f.StartsAt (classify pending (grammar.lexemes text)) rest) (ho : IsOpening o)
    (hpre : o <+: rest) : f.category ∈ stringCategories ∧ o <+: f.text.toList := by
  obtain ⟨l, hnext, htext, hfits⟩ := (classifies_classify pending _).exists_next hf
  obtain ⟨s, hs, hmatches⟩ := exists_rule_of_isOpening ho
  have hne : o ≠ [] := by
    obtain ⟨-, c, tail, rfl, -⟩ := ho.shape
    simp
  cases hnext with
  | unknown _ hunrecognized =>
    -- the opening itself is recognized
    exact absurd hmatches (hunrecognized s hs o hne hpre)
  | @longest found behind kind hsplit _ hselected hmaximal =>
    -- the match is no shorter than the opening
    have hlen : o.length ≤ found.length :=
      Nat.not_lt.mp fun hlt => hmaximal s hs o hpre hlt hmatches
    have hfound : o <+: found :=
      List.prefix_of_prefix_length_le hpre (hsplit ▸ List.prefix_append found behind) hlen
    obtain ⟨r, hr, rfl, hrule⟩ := Grammar.exists_rule_of_selected hselected
    -- so the rule is one for strings
    refine ⟨fits_extend (isString_of_matches ho hfound hr hrule) hfits, ?_⟩
    rw [htext]
    exact hfound.trans (List.prefix_append _ _)

end Python

/-! ## JSON -/

namespace JsonText

/-- JSON gives a lexeme the category of its kind. -/
def Fits (kind : Option Kind) (given : Category) : Prop :=
  ∃ namesMember, given = category namesMember kind

/-- JSON fragments are those of the lexemes, too, each of a category that fits. -/
theorem classifies_classify (lexemes : List (Lexeme Kind)) :
    Classifies Fits lexemes (classify lexemes) := by
  induction lexemes with
  | nil => exact .nil
  | cons l rest ih => exact .cons ⟨String.toList_ofList, _, rfl⟩ ih

/-- A string starts the text, but no beginning of the text is a whole string. -/
def OpensString (text : List Char) : Prop :=
  text.head? = some '"' ∧
    ∀ r ∈ grammar.rules, r.kind = .string → ∀ w, w <+: text → ¬ r.pattern.Matches w

/-- The rules that are not for strings describe no text that starts with a quote. -/
private theorem rules_avoid_quote :
    ∀ r ∈ grammar.rules, r.kind = .string ∨ r.kind = .openString ∨
      (r.pattern.after '"').isNever = true := by
  decide

/-- Where a text opens a string that nothing closes, the fragment is an error: the quote and the
    longest run of characters that a string can hold. -/
theorem fits_of_opensString {text rest : List Char} {f : Fragment}
    (hf : f.StartsAt (classify (grammar.lexemes text)) rest) (hrest : OpensString rest) :
    f.category = .ofKey "Error" ∧
      ∃ run, f.text.toList = '"' :: run ∧ stringContent.Matches run ∧
        ∀ longer, stringContent.Matches longer → '"' :: longer <+: rest →
          longer.length ≤ run.length := by
  obtain ⟨l, hnext, htext, hfits⟩ := (classifies_classify _).exists_next hf
  obtain ⟨hquote, hopen⟩ := hrest
  -- the text starts with the quote
  obtain ⟨body, rfl⟩ : ∃ body, rest = '"' :: body := by
    cases rest with
    | nil => simp at hquote
    | cons c body => exact ⟨body, by simpa using hquote⟩
  -- every run behind the quote is a match, so the longest match has the longest run
  cases hnext with
  | unknown _ hunrecognized =>
    obtain ⟨s, hs, hmatches⟩ := matches_openString .done
    exact absurd hmatches (hunrecognized s hs ['"'] (by simp) (by simp))
  | @longest found behind kind hsplit hne hselected hmaximal =>
    obtain ⟨r, hr, rfl, hmatches⟩ := Grammar.exists_rule_of_selected hselected
    rcases rules_avoid_quote r hr with hstring | hopenString | hnever
    · -- this would be a whole string
      exact absurd hmatches (hopen r hr hstring _ (hsplit ▸ List.prefix_append _ _))
    · obtain ⟨namesMember, hcategory⟩ := hfits
      obtain ⟨run, rfl, hrun⟩ := exists_run_of_openString hr hopenString hmatches
      refine ⟨?_, run, ?_, hrun, ?_⟩
      · rw [hcategory]
        simp only [grammar, hopenString, category]
      · simp [htext, grammar]
      · -- a longer run would be a longer match
        intro longer hlonger hpre
        refine Nat.not_lt.mp fun hlt => ?_
        obtain ⟨s, hs, hlonger⟩ := matches_openString hlonger
        exact hmaximal s hs _ hpre (Nat.succ_lt_succ hlt) hlonger
    · obtain ⟨c, tail, rfl⟩ := List.exists_cons_of_ne_nil hne
      obtain rfl := (List.cons.inj hsplit).1
      exact absurd hmatches (Pattern.not_matches_cons_of_isNever hnever)

end JsonText

/-! ## All of them -/

theorem reproduces_plainText : plainText.Reproduces := by
  intro source
  by_cases hempty : source = ""
  · rw [hempty]
    rfl
  · show String.join (List.map _ (if source = "" then [] else _)) = source
    rw [if_neg hempty]
    simp

theorem reproduces_python : python.Reproduces :=
  fun _ => (Python.classifies_classify none _).join_eq

theorem reproduces_json : json.Reproduces :=
  fun _ => (JsonText.classifies_classify _).join_eq

/-- There are three lexers from the start. -/
theorem mem_builtin_iff {lexer : Lexer} :
    lexer ∈ Lexers.builtin.byName.values ↔ lexer = json ∨ lexer = python ∨ lexer = plainText := by
  have hvalues : Lexers.builtin.byName.values = [json, python, plainText] := rfl
  simp only [hvalues, List.mem_cons, List.not_mem_nil, or_false]

/-- The fragments of a built-in lexer are its text. -/
theorem reproduces_of_mem_builtin {lexer : Lexer} (h : lexer ∈ Lexers.builtin.byName.values) :
    lexer.Reproduces := by
  rcases mem_builtin_iff.mp h with rfl | rfl | rfl
  · exact reproduces_json
  · exact reproduces_python
  · exact reproduces_plainText

/-- The fragments of a built-in lexer are not empty. -/
theorem text_ne_empty_of_mem_builtin {lexer : Lexer} (h : lexer ∈ Lexers.builtin.byName.values)
    {source : String} {f : Fragment} (hf : f ∈ lexer.fragments source) : f.text ≠ "" := by
  rcases mem_builtin_iff.mp h with rfl | rfl | rfl
  · exact (JsonText.classifies_classify _).text_ne_nil hf
  · exact (Python.classifies_classify none _).text_ne_nil hf
  · have hf : f ∈ if source = "" then [] else [⟨.ofKey "Text", source⟩] := hf
    split at hf
    · cases hf
    · rename_i hempty
      rw [List.mem_singleton.mp hf]
      exact hempty

/-- A text that is not empty starts with its first fragment. -/
private theorem exists_startsAt {lexer : Lexer} (h : lexer.Reproduces) (source : String)
    (hne : source ≠ "") : ∃ f : Fragment, f.StartsAt (lexer.fragments source) source.toList := by
  have hjoin := h source
  cases hfragments : lexer.fragments source with
  | nil =>
    rw [hfragments] at hjoin
    exact absurd hjoin.symm hne
  | cons f after =>
    refine ⟨f, [], after, rfl, ?_⟩
    rw [← congrArg String.toList hjoin, hfragments, String.toList_join, List.flatMap_map]

/-- A built-in lexer cuts every text into pieces that are not empty and lose nothing of it.  A
    character where no rule applies is an error of its own; what starts like a Python string is a
    string fragment, closed or not; and a JSON string that nothing closes is an error up to the
    last character that a string can hold. -/
theorem fragments_lossless (source : String) :
    (∀ lexer ∈ [plainText, python, json],
      String.join ((lexer.fragments source).map (·.text)) = source ∧
        ∀ f ∈ lexer.fragments source, f.text ≠ "") ∧
    (∀ (f : Fragment) (rest : List Char), f.StartsAt (python.fragments source) rest →
      (Python.grammar.Unrecognized rest →
        f = ⟨.ofKey "Error", String.ofList (rest.take 1)⟩) ∧
      ∀ o, Python.IsOpening o → o <+: rest →
        f.category ∈ Python.stringCategories ∧ o <+: f.text.toList) ∧
    (∀ (f : Fragment) (rest : List Char), f.StartsAt (json.fragments source) rest →
      (JsonText.grammar.Unrecognized rest →
        f = ⟨.ofKey "Error", String.ofList (rest.take 1)⟩) ∧
      (JsonText.OpensString rest → f.category = .ofKey "Error" ∧
        ∃ run, f.text.toList = '"' :: run ∧ JsonText.stringContent.Matches run ∧
          ∀ longer, JsonText.stringContent.Matches longer → '"' :: longer <+: rest →
            longer.length ≤ run.length)) := by
  refine ⟨fun lexer hlexer => ?_, fun f rest hf => ⟨fun hrest => ?_, fun o ho hpre => ?_⟩,
    fun f rest hf => ⟨fun hrest => ?_, fun hrest => JsonText.fits_of_opensString hf hrest⟩⟩
  · -- the three lexers are the built-in ones
    have hbuiltin : lexer ∈ Lexers.builtin.byName.values := by
      simp only [List.mem_cons, List.not_mem_nil, or_false] at hlexer
      rcases hlexer with rfl | rfl | rfl <;> simp [mem_builtin_iff]
    exact ⟨reproduces_of_mem_builtin hbuiltin source,
      fun f hf => text_ne_empty_of_mem_builtin hbuiltin hf⟩
  · -- a character that is not recognized has no kind, and is no name either
    obtain ⟨htext, hfits⟩ := (Python.classifies_classify none _).of_unrecognized hf hrest
    rcases hfits with hname | hcategory
    · cases hname
    · rw [← htext, ← show f.category = .ofKey "Error" from hcategory]
  · exact Python.fits_of_isOpening hf ho hpre
  · obtain ⟨htext, namesMember, hcategory⟩ :=
      (JsonText.classifies_classify _).of_unrecognized hf hrest
    rw [← htext, ← show f.category = .ofKey "Error" from hcategory]

/-- A sign that Python does not know, and a JSON string that breaks off. -/
theorem fragments_lossless_of_errors :
    ⟨.ofKey "Error", "§"⟩ ∈ python.fragments "§" ∧
      ∃ f ∈ json.fragments "\"a", f.category = .ofKey "Error" ∧ f.text ≠ "" := by
  constructor
  · obtain ⟨f, hf⟩ := exists_startsAt reproduces_python "§" (by decide)
    have hunrecognized : Python.grammar.Unrecognized "§".toList := by
      intro r hr w hne hw
      -- the text has only one beginning that is not empty
      obtain rfl : w = "§".toList := by
        rw [← List.mem_inits] at hw
        simpa [hne] using hw
      revert r
      decide
    obtain ⟨before, after, hsplit, -⟩ := id hf
    have hf_eq : f = ⟨.ofKey "Error", "§"⟩ := ((fragments_lossless "§").2.1 f _ hf).1 hunrecognized
    simp [hsplit, hf_eq]
  · obtain ⟨f, hf⟩ := exists_startsAt reproduces_json "\"a" (by decide)
    -- neither beginning of the text is a whole string
    have hopens : JsonText.OpensString "\"a".toList := by
      refine ⟨rfl, fun r hr hkind w hw => ?_⟩
      rw [← List.mem_inits] at hw
      revert r w
      decide
    have hmem : f ∈ json.fragments "\"a" := by
      obtain ⟨before, after, hsplit, -⟩ := hf
      simp [hsplit]
    exact ⟨f, hmem, (((fragments_lossless "\"a").2.2 f _ hf).2 hopens).1,
      ((fragments_lossless "\"a").1 json (by simp)).2 f hmem⟩

end Lexer

end Tinct
