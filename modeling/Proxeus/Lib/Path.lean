import Mathlib.Data.List.Basic
import Mathlib.Data.List.Infix

/-!
# Lib.Path

Slash-separated paths, with the lexical rules of `path.Clean`, and what it means that one path is
another or lies below it.
-/

namespace Proxeus
namespace Lib

/-! ## Below a prefix -/

section

variable {α : Type*}

theorem intercalate_append {sep : List α} {l m : List (List α)} (hl : l ≠ []) (hm : m ≠ []) :
    sep.intercalate (l ++ m) = sep.intercalate l ++ sep ++ sep.intercalate m := by
  induction l with
  | nil => exact absurd rfl hl
  | cons piece l ih =>
    by_cases hnil : l = []
    · subst hnil
      rw [List.singleton_append, List.intercalate_cons_of_ne_nil hm, List.intercalate_singleton]
    · rw [List.cons_append, List.intercalate_cons_of_ne_nil (by simp [hnil]),
        List.intercalate_cons_of_ne_nil hnil, ih hnil]
      simp only [List.append_assoc]

theorem notMem_of_mem_splitOn [DecidableEq α] {sep : α} {l piece : List α}
    (h : piece ∈ l.splitOn sep) : sep ∉ piece := by
  induction l generalizing piece with
  | nil =>
    rw [List.splitOn_nil, List.mem_singleton] at h
    simp [h]
  | cons x l ih =>
    rw [List.splitOn_cons_eq_if_modifyHead] at h
    obtain ⟨head, rest, hsplit⟩ := List.exists_cons_of_ne_nil (List.splitOn_ne_nil sep l)
    rw [hsplit] at h ih
    by_cases hx : x = sep
    · simp only [hx, beq_self_eq_true, if_true, List.mem_cons] at h
      rcases h with rfl | h
      · simp
      · exact ih (List.mem_cons.2 h)
    · simp only [beq_iff_eq, hx, if_false, List.modifyHead_cons, List.mem_cons] at h
      rcases h with rfl | h
      · intro hsep
        rcases List.mem_cons.1 hsep with hsep | hsep
        · exact hx hsep.symm
        · exact ih List.mem_cons_self hsep
      · exact ih (List.mem_cons_of_mem _ h)

/-- Being a list, or beginning with it and a separator, is to begin with its pieces. -/
theorem under_iff_splitOn [DecidableEq α] (sep : α) (p c : List α) :
    (c = p ∨ p ++ [sep] <+: c) ↔ p.splitOn sep <+: c.splitOn sep := by
  constructor
  · rintro (rfl | ⟨rest, rfl⟩)
    · exact List.prefix_rfl
    · rw [List.append_assoc, List.singleton_append, List.splitOn_append_cons_self]
      exact List.prefix_append _ _
  · rintro ⟨rest, hrest⟩
    have hc : [sep].intercalate (p.splitOn sep ++ rest) = c := by
      rw [hrest, List.intercalate_splitOn]
    cases rest with
    | nil =>
      left
      rw [← hc, List.append_nil, List.intercalate_splitOn]
    | cons piece rest =>
      right
      refine ⟨[sep].intercalate (piece :: rest), ?_⟩
      rw [← hc, intercalate_append (List.splitOn_ne_nil sep p) (by simp),
        List.intercalate_splitOn]

end

/-! ## Clean paths -/

namespace Path

/-- One element of a path, with the elements before it, the last one first. -/
def cleanStep (rooted : Bool) (stack : List (List Char)) (elem : List Char) : List (List Char) :=
  if elem = [] || elem = ['.'] then stack
  else if elem = ['.', '.'] then
    match stack with
    | [] => if rooted then [] else [elem]
    | top :: below => if top = ['.', '.'] then elem :: top :: below else below
  else elem :: stack

/-- The elements that are left of a path. -/
def cleanElems (rooted : Bool) (path : List Char) : List (List Char) :=
  ((path.splitOn '/').foldl (cleanStep rooted) []).reverse

def cleanText (path : List Char) : List Char :=
  let rooted := path.head? == some '/'
  (if rooted then ['/'] else []) ++ ['/'].intercalate (cleanElems rooted path)

/-- `path.Clean` -/
def clean (path : String) : String :=
  if cleanText path.toList = [] then "." else String.ofList (cleanText path.toList)

example : clean "/metrics/../api//v1/./query" = "/api/v1/query" := by decide +kernel

/-- A step keeps nothing but what was kept and the element, which then is a name or dots. -/
theorem mem_cleanStep {rooted : Bool} {stack : List (List Char)} {elem e : List Char}
    (h : e ∈ cleanStep rooted stack elem) : e ∈ stack ∨ (e = elem ∧ e ≠ []) := by
  unfold cleanStep at h
  split at h
  · exact .inl h
  · rename_i hdot
    have hne : elem ≠ [] := by
      rintro rfl
      simp at hdot
    split at h
    · cases stack with
      | nil =>
        cases rooted with
        | true => simp at h
        | false => exact .inr ⟨List.mem_singleton.1 h, List.mem_singleton.1 h ▸ hne⟩
      | cons top below =>
        by_cases htop : top = ['.', '.']
        · simp only [htop, if_true, List.mem_cons] at h
          rcases h with rfl | h
          · exact .inr ⟨rfl, hne⟩
          · exact .inl (htop ▸ List.mem_cons.2 h)
        · simp only [htop, if_false] at h
          exact .inl (List.mem_cons_of_mem _ h)
    · rcases List.mem_cons.1 h with rfl | h
      · exact .inr ⟨rfl, hne⟩
      · exact .inl h

theorem mem_foldl_cleanStep {rooted : Bool} {elems stack : List (List Char)} {e : List Char}
    (h : e ∈ elems.foldl (cleanStep rooted) stack) : e ∈ stack ∨ (e ∈ elems ∧ e ≠ []) := by
  induction elems generalizing stack with
  | nil => exact .inl h
  | cons elem elems ih =>
    rcases ih h with hstep | ⟨hmem, hne⟩
    · rcases mem_cleanStep hstep with hstack | ⟨rfl, hne⟩
      · exact .inl hstack
      · exact .inr ⟨List.mem_cons_self, hne⟩
    · exact .inr ⟨List.mem_cons_of_mem _ hmem, hne⟩

theorem of_mem_cleanElems {rooted : Bool} {path e : List Char} (h : e ∈ cleanElems rooted path) :
    e ≠ [] ∧ '/' ∉ e := by
  rcases mem_foldl_cleanStep (List.mem_reverse.1 h) with hnil | ⟨hmem, hne⟩
  · simp at hnil
  · exact ⟨hne, notMem_of_mem_splitOn hmem⟩

/-- What the elements make up does not begin with a slash. -/
theorem head?_intercalate {elems : List (List Char)} (h : ∀ e ∈ elems, e ≠ [] ∧ '/' ∉ e) :
    (['/'].intercalate elems).head? ≠ some '/' := by
  cases elems with
  | nil => simp
  | cons elem elems =>
    obtain ⟨hne, hslash⟩ := h elem List.mem_cons_self
    obtain ⟨c, rest, rfl⟩ := List.exists_cons_of_ne_nil hne
    have hc : c ≠ '/' := by
      rintro rfl
      simp at hslash
    cases elems with
    | nil => simp [hc]
    | cons e elems => simp [List.intercalate_cons_cons, hc]

/-- A clean path never begins with two slashes. -/
theorem slashes_not_prefix (path : String) : ¬['/', '/'] <+: (clean path).toList := by
  intro hslashes
  have htext : ['/', '/'] <+: cleanText path.toList := by
    unfold clean at hslashes
    split at hslashes
    · exact absurd hslashes (by decide)
    · simpa using hslashes
  have hhead : (['/'].intercalate (cleanElems (path.toList.head? == some '/') path.toList)).head? ≠
      some '/' := head?_intercalate fun e he => of_mem_cleanElems he
  obtain ⟨rest, hrest⟩ := htext
  simp only [cleanText] at hrest
  split at hrest
  · rw [List.singleton_append, List.cons_append] at hrest
    rw [← (List.cons.inj hrest).2] at hhead
    simp at hhead
  · rw [List.nil_append] at hrest
    rw [← hrest] at hhead
    simp at hhead

/-- The segments of a clean path. A rooted one begins with the empty segment, and the root has no
other. -/
def segments (path : String) : List (List Char) :=
  if path = "/" then [[]] else path.toList.splitOn '/'

theorem segments_of_ne {path : String} (h : path ≠ "/") :
    segments path = path.toList.splitOn '/' := by
  unfold segments
  rw [if_neg h]

/-- Only the root covers less than what its segments say. -/
theorem under_iff_segments {p c : String} (hp : p ≠ "/") :
    (c = p ∨ (p ++ "/").toList <+: c.toList) ↔ segments p <+: segments c := by
  have hunder := under_iff_splitOn '/' p.toList c.toList
  rw [segments_of_ne hp, String.toList_append, ← String.toList_inj,
    show "/".toList = ['/'] from rfl, hunder]
  by_cases hc : c = "/"
  · subst hc
    have hslash : "/".toList.splitOn '/' = [[], []] := by decide
    have hroot : segments "/" <+: [[], []] := by decide
    rw [hslash]
    constructor
    · intro hpre
      have hlen : (p.toList.splitOn '/').length ≠ 2 := by
        intro hlen
        have htext : ['/'].intercalate (p.toList.splitOn '/') = p.toList := List.intercalate_splitOn '/'
        rw [hpre.eq_of_length hlen] at htext
        exact hp (String.toList_inj.1 htext.symm)
      have hle := hpre.length_le
      refine List.prefix_of_prefix_length_le hpre hroot ?_
      simp only [List.length_cons, List.length_nil] at hle
      show _ ≤ 1
      omega
    · intro hpre
      exact hpre.trans hroot
  · rw [segments_of_ne hc]

end Path

end Lib
end Proxeus
