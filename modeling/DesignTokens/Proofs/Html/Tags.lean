import Mathlib.Data.List.TakeWhile
import DesignTokens.Page.Html

/-!
# Tags of HTML

Escaping loses nothing, and leaves nothing in a text that could open a tag or end an attribute. A text that is
written tag by tag is taken apart at its tags again, and the blocks of an element are found there in order.
-/

namespace DesignTokens

namespace Html

/-! ## Escapes -/

/-- Decodes the five entities from left to right. -/
def decode : List Char → List Char
  | '&' :: 'a' :: 'm' :: 'p' :: ';' :: rest => '&' :: decode rest
  | '&' :: 'l' :: 't' :: ';' :: rest => '<' :: decode rest
  | '&' :: 'g' :: 't' :: ';' :: rest => '>' :: decode rest
  | '&' :: 'q' :: 'u' :: 'o' :: 't' :: ';' :: rest => '"' :: decode rest
  | '&' :: '#' :: '3' :: '9' :: ';' :: rest => '\'' :: decode rest
  | c :: rest => c :: decode rest
  | [] => []

def unescape (text : String) : String :=
  String.ofList (decode text.toList)

theorem decode_cons {c : Char} (h : c ≠ '&') (rest : List Char) : decode (c :: rest) = c :: decode rest := by
  rw [decode] <;> simp [h]

theorem decode_escapeChar (c : Char) (rest : List Char) : decode (escapeChar c ++ rest) = c :: decode rest := by
  unfold escapeChar
  split
  case h_6 hamp _ _ _ _ => exact decode_cons hamp rest
  all_goals simp [decode]

theorem decode_flatMap_escapeChar (text : List Char) : decode (text.flatMap escapeChar) = text := by
  induction text with
  | nil => rfl
  | cons c rest ih => rw [List.flatMap_cons, decode_escapeChar, ih]

theorem unescape_escape (text : String) : unescape (escape text) = text := by
  rw [unescape, escape, String.toList_ofList, decode_flatMap_escapeChar, String.ofList_toList]

/-- The character opens or ends a tag or an attribute. -/
def IsDelimiter (c : Char) : Prop :=
  c = '<' ∨ c = '>' ∨ c = '"' ∨ c = '\''

theorem not_isDelimiter_of_mem_escapeChar {c d : Char} (h : d ∈ escapeChar c) : ¬ IsDelimiter d := by
  unfold IsDelimiter
  unfold escapeChar at h
  split at h
  case h_6 hlt hgt hquot hapos =>
    obtain rfl := List.mem_singleton.1 h
    simp_all
  all_goals
    simp only [List.mem_cons, List.not_mem_nil, or_false] at h
    rcases h with rfl | rfl | rfl | rfl | rfl | rfl <;> decide

theorem not_isDelimiter_of_mem_escape {text : String} {c : Char} (h : c ∈ (escape text).toList) :
    ¬ IsDelimiter c := by
  rw [escape, String.toList_ofList] at h
  obtain ⟨_, -, hc⟩ := List.mem_flatMap.1 h
  exact not_isDelimiter_of_mem_escapeChar hc

/-! ## Characters that a text has not -/

/-- None of the characters is in the text. -/
def Avoids (chars : List Char) (text : String) : Prop :=
  ∀ c ∈ text.toList, c ∉ chars

-- Decided over the characters of the text, never over all characters that there are.
instance (chars : List Char) (text : String) : Decidable (Avoids chars text) :=
  List.decidableBAll (· ∉ chars) text.toList

section

variable {chars : List Char} {text : String}

theorem Avoids.ne (h : Avoids chars text) {c d : Char} (hc : c ∈ text.toList) (hd : d ∈ chars) : c ≠ d := by
  rintro rfl
  exact h c hc hd

theorem avoids_empty (chars : List Char) : Avoids chars "" := nofun

theorem avoids_append_iff {other : String} :
    Avoids chars (text ++ other) ↔ Avoids chars text ∧ Avoids chars other := by
  rw [Avoids, String.toList_append, List.forall_mem_append]
  rfl

theorem avoids_escape (text : String) : Avoids ['<', '>'] (escape text) := by
  intro c hc hmem
  apply not_isDelimiter_of_mem_escape hc
  rw [List.mem_cons, List.mem_singleton] at hmem
  rcases hmem with rfl | rfl
  · exact .inl rfl
  · exact .inr (.inl rfl)

theorem avoids_open_escape (text : String) : Avoids ['<'] (escape text) :=
  fun c hc hmem => avoids_escape text c hc (List.mem_cons.2 (.inl (List.mem_singleton.1 hmem)))

end

/-! ## Tags -/

/-- A tag and the text after it, up to the next tag. The attributes go from the first blank on. -/
structure Tag where
  element : String
  attributes : String
  text : String
deriving DecidableEq

namespace Tag

def html (tag : Tag) : String :=
  "<" ++ tag.element ++ tag.attributes ++ ">" ++ tag.text

/-- Reads what stands between the bracket of a tag and that of the next one. -/
def ofPiece (piece : List Char) : Tag :=
  let name := piece.takeWhile (· ≠ '>')
  ⟨String.ofList (name.takeWhile (· ≠ ' ')), String.ofList (name.dropWhile (· ≠ ' ')),
    String.ofList ((piece.dropWhile (· ≠ '>')).drop 1)⟩

/-- What stands between the bracket of the tag and that of the next one. -/
def piece (tag : Tag) : List Char :=
  tag.element.toList ++ tag.attributes.toList ++ '>' :: tag.text.toList

/-- What is written for the tag can be read again. -/
structure IsPlain (tag : Tag) : Prop where
  element : Avoids ['<', '>', ' '] tag.element
  attributes : Avoids ['<', '>'] tag.attributes
  blank : ∀ c, tag.attributes.toList.head? = some c → c = ' '
  text : Avoids ['<'] tag.text

end Tag

/-- The tags of a text, read from one opening bracket to the next. -/
def tagsOf : List Char → List Tag
  | [] => []
  | c :: rest => if c = '<' then .ofPiece (rest.takeWhile (· ≠ '<')) :: tagsOf rest else tagsOf rest

def tags (text : String) : List Tag :=
  tagsOf text.toList

/-- The text is written tag by tag. -/
structure Written (text : String) (tags : List Tag) : Prop where
  eq : text = String.join (tags.map Tag.html)
  plain : ∀ tag ∈ tags, tag.IsPlain

theorem Tag.toList_html (tag : Tag) : tag.html.toList = '<' :: tag.piece := by
  simp [html, piece]

theorem Tag.ofPiece_piece {tag : Tag} (h : tag.IsPlain) : ofPiece tag.piece = tag := by
  have hname : ∀ c ∈ tag.element.toList ++ tag.attributes.toList, decide (c ≠ '>') = true := by
    intro c hc
    rcases List.mem_append.1 hc with hc | hc
    · exact decide_eq_true (h.element.ne hc (by simp))
    · exact decide_eq_true (h.attributes.ne hc (by simp))
  have helement : ∀ c ∈ tag.element.toList, decide (c ≠ ' ') = true :=
    fun c hc => decide_eq_true (h.element.ne hc (by simp))
  have hblank : tag.attributes.toList.takeWhile (· ≠ ' ') = [] ∧
      tag.attributes.toList.dropWhile (· ≠ ' ') = tag.attributes.toList := by
    cases hlist : tag.attributes.toList with
    | nil => exact ⟨rfl, rfl⟩
    | cons c rest =>
        rw [h.blank c (by rw [hlist]; rfl)]
        exact ⟨rfl, rfl⟩
  have hclose : ('>' :: tag.text.toList).takeWhile (· ≠ '>') = [] := rfl
  have hopen : ('>' :: tag.text.toList).dropWhile (· ≠ '>') = '>' :: tag.text.toList := rfl
  simp only [ofPiece, piece, List.takeWhile_append_of_pos hname, List.dropWhile_append_of_pos hname, hclose, hopen,
    List.append_nil, List.takeWhile_append_of_pos helement, List.dropWhile_append_of_pos helement, hblank.1,
    hblank.2, List.drop_one, List.tail_cons, String.ofList_toList]

theorem Tag.ne_of_mem_piece {tag : Tag} (h : tag.IsPlain) : ∀ c ∈ tag.piece, c ≠ '<' := by
  rw [piece, List.forall_mem_append, List.forall_mem_append, List.forall_mem_cons]
  exact ⟨⟨fun c hc => h.element.ne hc (by simp), fun c hc => h.attributes.ne hc (by simp)⟩, by decide,
    fun c hc => h.text.ne hc (by simp)⟩

theorem tagsOf_append_of_ne {text rest : List Char} (h : ∀ c ∈ text, c ≠ '<') : tagsOf (text ++ rest) = tagsOf rest := by
  induction text with
  | nil => rfl
  | cons c more ih =>
      rw [List.forall_mem_cons] at h
      rw [List.cons_append, tagsOf, if_neg h.1, ih h.2]

namespace Tag

variable {element attributes text : String}

theorem isPlain_of_text (helement : Avoids ['<', '>', ' '] element) (htext : Avoids ['<'] text) :
    IsPlain ⟨element, "", text⟩ :=
  ⟨helement, avoids_empty _, nofun, htext⟩

theorem isPlain_of_blank (helement : Avoids ['<', '>', ' '] element) (hattributes : Avoids ['<', '>'] attributes)
    (hblank : attributes.toList.head? = some ' ') (htext : Avoids ['<'] text) :
    IsPlain ⟨element, attributes, text⟩ :=
  ⟨helement, hattributes, fun _ hc => (Option.some.inj (hblank.symm.trans hc)).symm, htext⟩

theorem isPlain_of_quoted {key value : String} (helement : Avoids ['<', '>', ' '] element)
    (hkey : Avoids ['<', '>'] key) (hblank : key.toList.head? = some ' ') (hvalue : Avoids ['<', '>'] value)
    (htext : Avoids ['<'] text) : IsPlain ⟨element, key ++ value ++ "\"", text⟩ := by
  have hquote : Avoids ['<', '>'] "\"" := by decide
  refine isPlain_of_blank helement ?_ ?_ htext
  · exact avoids_append_iff.2 ⟨avoids_append_iff.2 ⟨hkey, hvalue⟩, hquote⟩
  · rw [String.toList_append, String.toList_append, List.head?_append, List.head?_append, hblank]
    rfl

theorem html_quoted (element key value text : String) :
    html ⟨element, key ++ value ++ "\"", text⟩ = "<" ++ element ++ key ++ value ++ "\">" ++ text := by
  have hclose : "\">" = "\"" ++ ">" := rfl
  simp only [html, hclose, String.append_assoc]

end Tag

namespace Written

variable {text : String} {written : List Tag}

theorem takeWhile_eq_nil (h : Written text written) : text.toList.takeWhile (· ≠ '<') = [] := by
  rw [h.eq]
  cases written with
  | nil => rfl
  | cons tag rest =>
      rw [List.map_cons, String.join_cons, String.toList_append, tag.toList_html]
      rfl

/-- A text that is written tag by tag is read so. -/
theorem tags_eq (h : Written text written) : tags text = written := by
  induction written generalizing text with
  | nil =>
      rw [h.eq]
      rfl
  | cons tag rest ih =>
      obtain ⟨hplain, hrest⟩ := List.forall_mem_cons.1 h.plain
      have hlater : Written (String.join (rest.map Tag.html)) rest := ⟨rfl, hrest⟩
      have hinside := Tag.ne_of_mem_piece hplain
      have hpiece : (tag.piece ++ (String.join (rest.map Tag.html)).toList).takeWhile (· ≠ '<') = tag.piece := by
        rw [List.takeWhile_append_of_pos (fun c hc => decide_eq_true (hinside c hc)), hlater.takeWhile_eq_nil,
          List.append_nil]
      rw [h.eq, tags, List.map_cons, String.join_cons, String.toList_append, tag.toList_html, List.cons_append, tagsOf,
        if_pos rfl, hpiece, Tag.ofPiece_piece hplain, tagsOf_append_of_ne hinside]
      exact congrArg (List.cons tag) (ih hlater)

theorem single {tag : Tag} (h : tag.IsPlain) : Written tag.html [tag] :=
  ⟨by simp, List.forall_mem_singleton.2 h⟩

theorem append {other : String} {others : List Tag} (h : Written text written) (h' : Written other others) :
    Written (text ++ other) (written ++ others) where
  eq := by
    rw [h.eq, h'.eq, List.map_append]
    simp
  plain := List.forall_mem_append.2 ⟨h.plain, h'.plain⟩

theorem plain_tag (element text : String) (helement : Avoids ['<', '>', ' '] element) (htext : Avoids ['<'] text) :
    Written (Tag.html ⟨element, "", text⟩) [⟨element, "", text⟩] :=
  single (Tag.isPlain_of_text helement htext)

/-- An element with nothing in it but a text. -/
theorem enclosed (element text after : String) (helement : Avoids ['<', '>', ' '] element)
    (htext : Avoids ['<'] text) (hafter : Avoids ['<'] after) :
    Written (Tag.html ⟨element, "", text⟩ ++ Tag.html ⟨"/" ++ element, "", after⟩)
      [⟨element, "", text⟩, ⟨"/" ++ element, "", after⟩] := by
  have hclosing : Avoids ['<', '>', ' '] ("/" ++ element) := avoids_append_iff.2 ⟨by decide, helement⟩
  exact (plain_tag element text helement htext).append (plain_tag ("/" ++ element) after hclosing hafter)

theorem join {α : Type} {f : α → String} {g : α → List Tag} {items : List α}
    (h : ∀ item ∈ items, Written (f item) (g item)) : Written (String.join (items.map f)) (items.flatMap g) := by
  induction items with
  | nil => exact ⟨rfl, nofun⟩
  | cons item rest ih =>
      rw [List.forall_mem_cons] at h
      rw [List.map_cons, String.join_cons, List.flatMap_cons]
      exact h.1.append (ih h.2)

end Written

/-! ## Blocks -/

/-- The blocks of an element: its opening tags, each with the tags up to the next closing one. -/
def blocks (element : String) : List Tag → List (Tag × List Tag)
  | [] => []
  | tag :: rest =>
      if tag.element = element then
        (tag, rest.takeWhile (·.element ≠ "/" ++ element)) :: blocks element rest
      else blocks element rest

/-- The tags are those of one block. -/
structure IsBlock (element : String) (block : Tag × List Tag) (tags : List Tag) : Prop where
  opens : block.1.element = element
  inner : ∀ tag ∈ block.2, tag.element ≠ element ∧ tag.element ≠ "/" ++ element
  closes : ∃ close : Tag, close.element = "/" ++ element ∧ tags = block.1 :: (block.2 ++ [close])

section

variable {element : String}

theorem blocks_append_of_ne {tags rest : List Tag} (h : ∀ tag ∈ tags, tag.element ≠ element) :
    blocks element (tags ++ rest) = blocks element rest := by
  induction tags with
  | nil => rfl
  | cons tag more ih =>
      rw [List.forall_mem_cons] at h
      rw [List.cons_append, blocks, if_neg h.1, ih h.2]

theorem blocks_eq_nil {tags : List Tag} (h : ∀ tag ∈ tags, tag.element ≠ element) : blocks element tags = [] := by
  rw [← List.append_nil tags, blocks_append_of_ne h]
  rfl

theorem closing_ne (element : String) : "/" ++ element ≠ element := by
  intro h
  have hlength := congrArg String.length h
  rw [String.length_append] at hlength
  have hone : "/".length = 1 := rfl
  omega

theorem IsBlock.blocks_append {block : Tag × List Tag} {tags : List Tag} (h : IsBlock element block tags)
    (rest : List Tag) : blocks element (tags ++ rest) = block :: blocks element rest := by
  obtain ⟨close, hclose, rfl⟩ := h.closes
  have hinner : (block.2 ++ close :: rest).takeWhile (·.element ≠ "/" ++ element) = block.2 := by
    rw [List.takeWhile_append_of_pos (fun tag htag => decide_eq_true (h.inner tag htag).2), List.takeWhile_cons,
      if_neg (by simpa using hclose), List.append_nil]
  have hlater : blocks element (block.2 ++ close :: rest) = blocks element rest := by
    rw [blocks_append_of_ne (fun tag htag => (h.inner tag htag).1), blocks,
      if_neg (by rw [hclose]; exact closing_ne element)]
  rw [List.cons_append, List.append_assoc, List.singleton_append, blocks, if_pos h.opens, hinner, hlater]

/-- Items that are written block by block are read so. -/
theorem blocks_flatMap {α : Type} {items : List α} {f : α → List Tag} {block : α → Tag × List Tag}
    (h : ∀ item ∈ items, IsBlock element (block item) (f item)) (rest : List Tag) :
    blocks element (items.flatMap f ++ rest) = items.map block ++ blocks element rest := by
  induction items with
  | nil => rfl
  | cons item more ih =>
      rw [List.forall_mem_cons] at h
      rw [List.flatMap_cons, List.append_assoc, h.1.blocks_append, ih h.2, List.map_cons, List.cons_append]

end

end Html

end DesignTokens
