import OneOps.PythonJson

/-! The text that `json.dumps` makes without blanks between the tokens, and its reading: the
text of a document of strings, lists and objects ends where the document does, so two
documents with one text are the same. -/
namespace JsonText

open PythonJson

def hexVal (c : Char) : ℕ := if c ≤ '9' then c.toNat - 48 else c.toNat - 87

/-- The number that four digits write, and what follows them. -/
def hex4 : List Char → ℕ × List Char
  | a :: b :: c :: d :: rest =>
    (hexVal a * 4096 + hexVal b * 256 + hexVal c * 16 + hexVal d, rest)
  | rest => (0, rest)

/-- A character beyond the basic plane is written as two escapes of surrogates. -/
def unescapeUnicode (text : List Char) : Char × List Char :=
  let (n, rest) := hex4 text
  if 0xd800 ≤ n ∧ n < 0xdc00 then
    let (m, rest) := hex4 (rest.drop 2)
    (Char.ofNat (0x10000 + (n - 0xd800) * 0x400 + (m - 0xdc00)), rest)
  else (Char.ofNat n, rest)

def unescapeTail : List Char → Char × List Char
  | [] => ('\\', [])
  | c :: rest =>
    if c = 'u' then unescapeUnicode rest
    else if c = 'n' then ('\n', rest)
    else if c = 'r' then ('\r', rest)
    else if c = 't' then ('\t', rest)
    else if c = 'f' then ('\x0c', rest)
    else if c = 'b' then ('\x08', rest)
    else (c, rest)

/-- The first character that a string's text stands for, and what follows it. -/
def unescape : List Char → Char × List Char
  | [] => ('"', [])
  | c :: rest => if c = '\\' then unescapeTail rest else (c, rest)

theorem hexVal_digitChar : ∀ d < 16, hexVal (Nat.digitChar d) = d := by decide

theorem hex4_hexDigits {n : ℕ} (h : n < 65536) (rest : List Char) :
    hex4 (hexDigits n ++ rest) = (n, rest) := by
  have h₁ := hexVal_digitChar (n / 4096 % 16) (Nat.mod_lt _ (by decide))
  have h₂ := hexVal_digitChar (n / 256 % 16) (Nat.mod_lt _ (by decide))
  have h₃ := hexVal_digitChar (n / 16 % 16) (Nat.mod_lt _ (by decide))
  have h₄ := hexVal_digitChar (n % 16) (Nat.mod_lt _ (by decide))
  simp only [hexDigits, List.map_cons, List.map_nil, List.cons_append, List.nil_append, hex4,
    h₁, h₂, h₃, h₄, Prod.mk.injEq, and_true]
  omega

theorem toNat_valid (c : Char) : c.toNat < 0xd800 ∨ 0xdfff < c.toNat ∧ c.toNat < 0x110000 := by
  have h := c.valid
  rwa [UInt32.isValidChar, Nat.isValidChar] at h

theorem unescape_u (rest : List Char) : unescape ('\\' :: 'u' :: rest) = unescapeUnicode rest := rfl

/-- A character is written by two characters, by itself, by one escape or by two. -/
theorem escape_cases (c : Char) :
    (∃ d, escape c = ['\\', d] ∧ ∀ rest, unescapeTail (d :: rest) = (c, rest)) ∨
      (c ≠ '"' ∧ c ≠ '\\' ∧ escape c = [c]) ∨
      (c.toNat < 0x10000 ∧ escape c = '\\' :: 'u' :: hexDigits c.toNat) ∨
      (0x10000 ≤ c.toNat ∧
        escape c = '\\' :: 'u' :: (hexDigits (0xd800 + (c.toNat - 0x10000) / 0x400) ++
          '\\' :: 'u' :: hexDigits (0xdc00 + (c.toNat - 0x10000) % 0x400))) := by
  unfold escape
  by_cases h₁ : c = '"'
  · exact .inl ⟨'"', if_pos h₁, fun _ => by rw [h₁]; rfl⟩
  rw [if_neg h₁]
  by_cases h₂ : c = '\\'
  · exact .inl ⟨'\\', if_pos h₂, fun _ => by rw [h₂]; rfl⟩
  rw [if_neg h₂]
  by_cases h₃ : c = '\n'
  · exact .inl ⟨'n', if_pos h₃, fun _ => by rw [h₃]; rfl⟩
  rw [if_neg h₃]
  by_cases h₄ : c = '\r'
  · exact .inl ⟨'r', if_pos h₄, fun _ => by rw [h₄]; rfl⟩
  rw [if_neg h₄]
  by_cases h₅ : c = '\t'
  · exact .inl ⟨'t', if_pos h₅, fun _ => by rw [h₅]; rfl⟩
  rw [if_neg h₅]
  by_cases h₆ : c = '\x0c'
  · exact .inl ⟨'f', if_pos h₆, fun _ => by rw [h₆]; rfl⟩
  rw [if_neg h₆]
  by_cases h₇ : c = '\x08'
  · exact .inl ⟨'b', if_pos h₇, fun _ => by rw [h₇]; rfl⟩
  rw [if_neg h₇]
  by_cases h₈ : ' ' ≤ c ∧ c ≤ '~'
  · exact .inr (.inl ⟨h₁, h₂, if_pos h₈⟩)
  rw [if_neg h₈]
  by_cases h₉ : c.toNat < 0x10000
  · exact .inr (.inr (.inl ⟨h₉, if_pos h₉⟩))
  · exact .inr (.inr (.inr ⟨not_lt.mp h₉, if_neg h₉⟩))

theorem unescape_escape (c : Char) (rest : List Char) :
    unescape (escape c ++ rest) = (c, rest) := by
  have hvalid := toNat_valid c
  obtain ⟨d, heq, hd⟩ | ⟨_, hc, heq⟩ | ⟨hlow, heq⟩ | ⟨hhigh, heq⟩ := escape_cases c
  · rw [heq]
    exact hd rest
  · rw [heq]
    exact if_neg hc
  · have hno : ¬ (0xd800 ≤ c.toNat ∧ c.toNat < 0xdc00) := by omega
    rw [heq, List.cons_append, List.cons_append, unescape_u]
    unfold unescapeUnicode
    rw [hex4_hexDigits hlow]
    simp only [if_neg hno, Char.ofNat_toNat]
  · have hfirst : 0xd800 + (c.toNat - 0x10000) / 0x400 < 65536 := by omega
    have hsecond : 0xdc00 + (c.toNat - 0x10000) % 0x400 < 65536 := by omega
    have hsur : 0xd800 ≤ 0xd800 + (c.toNat - 0x10000) / 0x400 ∧
        0xd800 + (c.toNat - 0x10000) / 0x400 < 0xdc00 := by omega
    have hback : 0x10000 + (0xd800 + (c.toNat - 0x10000) / 0x400 - 0xd800) * 0x400 +
        (0xdc00 + (c.toNat - 0x10000) % 0x400 - 0xdc00) = c.toNat := by omega
    rw [heq]
    simp only [List.cons_append, List.append_assoc]
    rw [unescape_u]
    unfold unescapeUnicode
    rw [hex4_hexDigits hfirst]
    simp only [if_pos hsur, List.drop_succ_cons, List.drop_zero]
    rw [hex4_hexDigits hsecond]
    simp only [hback, Char.ofNat_toNat]

theorem escape_inj {c d : Char} {x y : List Char} (h : escape c ++ x = escape d ++ y) :
    c = d ∧ x = y := by
  have hread : (c, x) = (d, y) := by rw [← unescape_escape c x, h, unescape_escape d y]
  exact Prod.mk.inj hread

/-- No escaped character begins with the quote that ends a string. -/
theorem escape_ne_quote (c : Char) (x y : List Char) : escape c ++ x ≠ '"' :: y := by
  intro h
  obtain ⟨d, heq, _⟩ | ⟨hc, _, heq⟩ | ⟨_, heq⟩ | ⟨_, heq⟩ := escape_cases c
  all_goals rw [heq, List.cons_append] at h
  · exact absurd (List.cons.inj h).1 (by decide)
  · exact hc (List.cons.inj h).1
  · exact absurd (List.cons.inj h).1 (by decide)
  · exact absurd (List.cons.inj h).1 (by decide)

theorem chars_inj {s t x y : List Char}
    (h : s.flatMap escape ++ '"' :: x = t.flatMap escape ++ '"' :: y) : s = t ∧ x = y := by
  induction s generalizing t with
  | nil =>
    cases t with
    | nil => exact ⟨rfl, (List.cons.inj h).2⟩
    | cons d t =>
      rw [List.flatMap_cons, List.append_assoc] at h
      exact absurd h.symm (escape_ne_quote d _ x)
  | cons c s ih =>
    cases t with
    | nil =>
      rw [List.flatMap_cons, List.append_assoc] at h
      exact absurd h (escape_ne_quote c _ y)
    | cons d t =>
      rw [List.flatMap_cons, List.flatMap_cons, List.append_assoc, List.append_assoc] at h
      obtain ⟨rfl, hrest⟩ := escape_inj h
      obtain ⟨rfl, hxy⟩ := ih hrest
      exact ⟨rfl, hxy⟩

theorem quoted_inj {s t : String} {x y : List Char} (h : quoted s ++ x = quoted t ++ y) :
    s = t ∧ x = y := by
  unfold quoted at h
  rw [List.cons_append, List.cons_append, List.append_assoc, List.append_assoc] at h
  obtain ⟨hst, hxy⟩ := chars_inj (List.cons.inj h).2
  exact ⟨String.toList_inj.mp hst, hxy⟩

mutual

def compact : Doc → List Char
  | .null => "null".toList
  | .bool b => (if b then "true" else "false").toList
  | .int n => (toString n).toList
  | .float repr => repr.toList
  | .str s => quoted s
  | .arr xs => '[' :: compactItems xs
  | .obj members => '\x7b' :: compactMembers members

def compactItems : List Doc → List Char
  | [] => [']']
  | d :: ds => compact d ++ compactRest ds

def compactRest : List Doc → List Char
  | [] => [']']
  | d :: ds => ',' :: (compact d ++ compactRest ds)

def compactMembers : List (String × Doc) → List Char
  | [] => ['\x7d']
  | (name, d) :: members => quoted name ++ ':' :: (compact d ++ compactMembersRest members)

def compactMembersRest : List (String × Doc) → List Char
  | [] => ['\x7d']
  | (name, d) :: members =>
    ',' :: (quoted name ++ ':' :: (compact d ++ compactMembersRest members))

end

mutual

def Textual : Doc → Prop
  | .str _ => True
  | .arr xs => TextualAll xs
  | .obj members => TextualMembers members
  | _ => False

def TextualAll : List Doc → Prop
  | [] => True
  | d :: ds => Textual d ∧ TextualAll ds

def TextualMembers : List (String × Doc) → Prop
  | [] => True
  | (_, d) :: members => Textual d ∧ TextualMembers members

end

theorem compact_head {d : Doc} (h : Textual d) :
    ∃ c rest, compact d = c :: rest ∧ c ≠ ']' := by
  cases d with
  | str s => exact ⟨'"', s.toList.flatMap escape ++ ['"'], rfl, by decide⟩
  | arr xs => exact ⟨'[', compactItems xs, by rw [compact], by decide⟩
  | obj members => exact ⟨'\x7b', compactMembers members, by rw [compact], by decide⟩
  | null => exact h.elim
  | bool b => exact h.elim
  | int n => exact h.elim
  | float repr => exact h.elim

mutual

/-- A text is the text of one document only, wherever it stands. -/
theorem compact_inj : ∀ {a b : Doc}, Textual a → Textual b → ∀ {x y : List Char},
    compact a ++ x = compact b ++ y → a = b ∧ x = y
  | .str s, b, _, hb, x, y, h => by
    cases b with
    | str t =>
      rw [compact, compact] at h
      obtain ⟨rfl, hxy⟩ := quoted_inj h
      exact ⟨rfl, hxy⟩
    | arr xs => rw [compact, compact] at h; exact absurd (List.cons.inj h).1 (by decide)
    | obj members => rw [compact, compact] at h; exact absurd (List.cons.inj h).1 (by decide)
    | null => exact hb.elim
    | bool b => exact hb.elim
    | int n => exact hb.elim
    | float repr => exact hb.elim
  | .arr xs, b, ha, hb, x, y, h => by
    cases b with
    | str t => rw [compact, compact] at h; exact absurd (List.cons.inj h).1 (by decide)
    | arr ys =>
      rw [compact, compact] at h
      rw [Textual] at ha hb
      obtain ⟨rfl, hxy⟩ := compactItems_inj ha hb (List.cons.inj h).2
      exact ⟨rfl, hxy⟩
    | obj members => rw [compact, compact] at h; exact absurd (List.cons.inj h).1 (by decide)
    | null => exact hb.elim
    | bool b => exact hb.elim
    | int n => exact hb.elim
    | float repr => exact hb.elim
  | .obj members, b, ha, hb, x, y, h => by
    cases b with
    | str t => rw [compact, compact] at h; exact absurd (List.cons.inj h).1 (by decide)
    | arr ys => rw [compact, compact] at h; exact absurd (List.cons.inj h).1 (by decide)
    | obj members' =>
      rw [compact, compact] at h
      rw [Textual] at ha hb
      obtain ⟨rfl, hxy⟩ := compactMembers_inj ha hb (List.cons.inj h).2
      exact ⟨rfl, hxy⟩
    | null => exact hb.elim
    | bool b => exact hb.elim
    | int n => exact hb.elim
    | float repr => exact hb.elim
  | .null, _, ha, _, _, _, _ | .bool _, _, ha, _, _, _, _ | .int _, _, ha, _, _, _, _
  | .float _, _, ha, _, _, _, _ => ha.elim

theorem compactItems_inj : ∀ {as bs : List Doc}, TextualAll as → TextualAll bs →
    ∀ {x y : List Char}, compactItems as ++ x = compactItems bs ++ y → as = bs ∧ x = y
  | [], [], _, _, x, y, h => by
    rw [compactItems] at h
    exact ⟨rfl, (List.cons.inj h).2⟩
  | [], b :: bs, _, hb, x, y, h => by
    rw [TextualAll] at hb
    obtain ⟨c, rest, hc, hne⟩ := compact_head hb.1
    rw [compactItems, compactItems, hc] at h
    exact absurd (List.cons.inj h).1.symm hne
  | a :: as, [], ha, _, x, y, h => by
    rw [TextualAll] at ha
    obtain ⟨c, rest, hc, hne⟩ := compact_head ha.1
    rw [compactItems, compactItems, hc] at h
    exact absurd (List.cons.inj h).1 hne
  | a :: as, b :: bs, ha, hb, x, y, h => by
    rw [TextualAll] at ha hb
    rw [compactItems, compactItems, List.append_assoc, List.append_assoc] at h
    obtain ⟨rfl, hrest⟩ := compact_inj ha.1 hb.1 h
    obtain ⟨rfl, hxy⟩ := compactRest_inj ha.2 hb.2 hrest
    exact ⟨rfl, hxy⟩

theorem compactRest_inj : ∀ {as bs : List Doc}, TextualAll as → TextualAll bs →
    ∀ {x y : List Char}, compactRest as ++ x = compactRest bs ++ y → as = bs ∧ x = y
  | [], [], _, _, x, y, h => by
    rw [compactRest] at h
    exact ⟨rfl, (List.cons.inj h).2⟩
  | [], b :: bs, _, _, x, y, h => by
    rw [compactRest, compactRest] at h
    exact absurd (List.cons.inj h).1 (by decide)
  | a :: as, [], _, _, x, y, h => by
    rw [compactRest, compactRest] at h
    exact absurd (List.cons.inj h).1 (by decide)
  | a :: as, b :: bs, ha, hb, x, y, h => by
    rw [TextualAll] at ha hb
    rw [compactRest, compactRest, List.cons_append, List.cons_append, List.append_assoc,
      List.append_assoc] at h
    obtain ⟨rfl, hrest⟩ := compact_inj ha.1 hb.1 (List.cons.inj h).2
    obtain ⟨rfl, hxy⟩ := compactRest_inj ha.2 hb.2 hrest
    exact ⟨rfl, hxy⟩

theorem compactMembers_inj : ∀ {as bs : List (String × Doc)}, TextualMembers as →
    TextualMembers bs → ∀ {x y : List Char},
      compactMembers as ++ x = compactMembers bs ++ y → as = bs ∧ x = y
  | [], [], _, _, x, y, h => by
    rw [compactMembers] at h
    exact ⟨rfl, (List.cons.inj h).2⟩
  | [], (n, b) :: bs, _, _, x, y, h => by
    rw [compactMembers, compactMembers] at h
    exact absurd (List.cons.inj h).1 (by decide)
  | (n, a) :: as, [], _, _, x, y, h => by
    rw [compactMembers, compactMembers] at h
    exact absurd (List.cons.inj h).1 (by decide)
  | (n, a) :: as, (m, b) :: bs, ha, hb, x, y, h => by
    rw [TextualMembers] at ha hb
    rw [compactMembers, compactMembers, List.append_assoc, List.append_assoc, List.cons_append,
      List.cons_append, List.append_assoc, List.append_assoc] at h
    obtain ⟨rfl, hdoc⟩ := quoted_inj h
    obtain ⟨rfl, hrest⟩ := compact_inj ha.1 hb.1 (List.cons.inj hdoc).2
    obtain ⟨rfl, hxy⟩ := compactMembersRest_inj ha.2 hb.2 hrest
    exact ⟨rfl, hxy⟩

theorem compactMembersRest_inj : ∀ {as bs : List (String × Doc)}, TextualMembers as →
    TextualMembers bs → ∀ {x y : List Char},
      compactMembersRest as ++ x = compactMembersRest bs ++ y → as = bs ∧ x = y
  | [], [], _, _, x, y, h => by
    rw [compactMembersRest] at h
    exact ⟨rfl, (List.cons.inj h).2⟩
  | [], (n, b) :: bs, _, _, x, y, h => by
    rw [compactMembersRest, compactMembersRest] at h
    exact absurd (List.cons.inj h).1 (by decide)
  | (n, a) :: as, [], _, _, x, y, h => by
    rw [compactMembersRest, compactMembersRest] at h
    exact absurd (List.cons.inj h).1 (by decide)
  | (n, a) :: as, (m, b) :: bs, ha, hb, x, y, h => by
    rw [TextualMembers] at ha hb
    rw [compactMembersRest, compactMembersRest, List.cons_append, List.cons_append,
      List.append_assoc, List.append_assoc, List.cons_append, List.cons_append,
      List.append_assoc, List.append_assoc] at h
    obtain ⟨rfl, hdoc⟩ := quoted_inj (List.cons.inj h).2
    obtain ⟨rfl, hrest⟩ := compact_inj ha.1 hb.1 (List.cons.inj hdoc).2
    obtain ⟨rfl, hxy⟩ := compactMembersRest_inj ha.2 hb.2 hrest
    exact ⟨rfl, hxy⟩

end

theorem text_inj {a b : Doc} (ha : Textual a) (hb : Textual b)
    (h : String.ofList (compact a) = String.ofList (compact b)) : a = b := by
  have happ : compact a ++ [] = compact b ++ [] := congrArg (· ++ []) (String.ofList_injective h)
  exact (compact_inj ha hb happ).1

end JsonText
