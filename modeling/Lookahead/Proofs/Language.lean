import Lookahead.Language
import Lookahead.Proofs.Lexicon.Chunking
import Lookahead.Proofs.Parser.Invariant
import Lookahead.Proofs.Parser.Tiling

/-!
From a text to a tree. What is known of lexicons and of parsers separately is put together here for
a language that was built from its symbols and productions. The tokens of a source leave no gaps and
stand where the text before them ends, and the parser keeps that. So if nothing is filtered out, an
accepted source is tiled by its tree, however it was cut into chunks.
-/

namespace Lookahead

open Lexicon (textOfTokens textOfTokens_append)

/-! ### Tokens of a source -/

namespace Lexicon

variable {c : Catalog} {l : Lexicon} {chunkSize : Int}

theorem placed_scanChunks (l : Lexicon) (chunks : List (List Char)) :
    Placed (l.scanChunks chunks).tokens := by
  obtain ⟨pieces, -, htokens, -⟩ := l.exists_pieces_scan {} [] (.chunks chunks)
  exact fun _ _ _ heq => token_of_layOut (htokens ▸ heq)

theorem isChain_scanChunks (l : Lexicon) (chunks : List (List Char)) :
    (l.scanChunks chunks).tokens.IsChain fun first second => first.stop = second.start := by
  obtain ⟨pieces, -, htokens, -⟩ := l.exists_pieces_scan {} [] (.chunks chunks)
  change (l.scanChunks chunks).tokens = _ at htokens
  rw [htokens]
  exact (isChain_layOut _ _).imp fun _ _ h => h.symm

/-- The last token of a source is the only one for the end of the input, and has no text. -/
theorem exists_scanChunks_eq [Text.CharacterNames] (hc : c.WellFormed)
    (hl : build c chunkSize = .ok l) (chunks : List (List Char)) :
    ∃ body last, (l.scanChunks chunks).tokens = body ++ [last] ∧
      (∀ token ∈ body, token.kind ≠ c.epsilon) ∧ last.kind = c.epsilon ∧ last.text = "" ∧
      textOfTokens body = (chunks.takeWhile (· ≠ [])).flatten := by
  obtain rfl := (build_eq_ok hl).1
  have hepsilon : l.catalog.epsilon ∉ l.kinds.map Prod.snd :=
    fun h => (ne_of_mem_kinds hc hl h).1 rfl
  obtain ⟨pieces, hcut, htokens, -⟩ := l.exists_pieces_scan {} [] (.chunks chunks)
  change (l.scanChunks chunks).tokens = _ at htokens
  have hbody := hcut.kind_ne hc.epsilon_ne_unmatched.symm hepsilon {}
  let last := tokenAt (({} : Cursor).advance (textOf pieces)) l.catalog.epsilon []
  refine ⟨layOut {} pieces, last, ?_, hbody, rfl, rfl, ?_⟩
  · rw [htokens, layOut_append]
    rfl
  · rw [textOfTokens_layOut, hcut.textOf_eq]
    rfl

end Lexicon

/-! ### Trees of a stream -/

namespace Parser

variable {g : Grammar} {root : String} {body : List Token} {last : Token}

/-- The tree of a stream has all its tokens as leaves, or all but the one for the end. -/
theorem exists_tree_of_accepted (hg : g.WellFormed) (hr : g.NoHiddenLeftRecursion)
    (hbody : ∀ token ∈ body, token.kind ≠ g.catalog.epsilon)
    (haccepted : ((start root).acceptAll g (body ++ [last])).accepted = true) :
    ∃ tree, ((start root).acceptAll g (body ++ [last])).held = [tree] ∧
      ((start root).acceptAll g (body ++ [last])).root? = some tree ∧
      (tree.leaves = body ∨ tree.leaves = body ++ [last]) := by
  obtain ⟨before, final, after, leaves, tree, heq, -, -, hresult, -, -, hfinal, hcons, hnot,
    hleaves⟩ := tree_of_acceptAll hg hr (tracks_start g root) rfl haccepted
  -- the token that ends the parse is the last one, since no other has its kind
  obtain ⟨rfl, rfl⟩ := eq_of_append_eq heq fun hmem => hbody final hmem hfinal
  have htracks := tracks_acceptAll hg hr (tracks_start g root) (body ++ [last])
  refine ⟨tree, ?_, by rw [root?, if_pos haccepted, hresult], ?_⟩
  · rcases htracks with ⟨_, _, -, hnone, -⟩ | ⟨_, -, hbuilders, -⟩
    · rw [hresult] at hnone
      contradiction
    · rw [held, hbuilders, hresult]
      rfl
  · rw [hleaves, List.nil_append]
    by_cases h : Consumes g ((start root).acceptAll g body) last
    · exact .inr (hcons h)
    · exact .inl (hnot h)

/-- The tree of a stream without gaps that begins a text has no gaps and begins there too. -/
theorem fits_of_held (hg : g.WellFormed) (hr : g.NoHiddenLeftRecursion) {tokens : List Token}
    (hplaced : Placed tokens)
    (hjoined : tokens.IsChain fun first second => first.stop = second.start)
    {tree : Node} (hheld : ((start root).acceptAll g tokens).held = [tree]) :
    tree.Fits .exact ∧ tree.start = placeAfter [] := by
  have hfirst : ∀ first ∈ tokens.head?, placeAfter [] = first.start := by
    intro first hfirst
    obtain ⟨others, rfl⟩ := List.head?_eq_some_iff.mp hfirst
    exact (hplaced [] first others rfl).1.symm
  obtain ⟨place, hrow, hfits⟩ := (standing_start .exact (placeAfter []) root).acceptAll hg hr
    (tracks_start g root) hfirst hplaced.start_le_stop hjoined
  rw [hheld] at hrow hfits
  exact ⟨hfits tree (List.mem_singleton_self tree), hrow.1.symm⟩

end Parser

namespace Language

variable {terminals : List Terminal} {productions : Productions} {chunkSize : Int} {l : Language}
variable {root : String} {p : Parser}

/-! ### Building and parsing -/

theorem exists_of_build [Text.CharacterNames] (h : build terminals productions chunkSize = .ok l) :
    ∃ c, Catalog.build terminals productions.names = .ok c ∧
      Lexicon.build c chunkSize = .ok l.lexicon ∧ Grammar.build c productions = .ok l.grammar := by
  obtain ⟨c, hc, h⟩ := bind_eq_ok.mp h
  obtain ⟨lexicon, hlexicon, h⟩ := bind_eq_ok.mp h
  obtain ⟨grammar, hgrammar, h⟩ := bind_eq_ok.mp h
  rw [mapError_eq_ok] at hc hlexicon hgrammar
  cases h
  exact ⟨c, hc, hlexicon, hgrammar⟩

theorem eq_feed_of_parse {filter : Filter} {chunks : List (List Char)}
    (h : l.parse root filter chunks = .ok p) : p = l.feed filter chunks (.start root) := by
  obtain ⟨q, hq, rfl⟩ := map_eq_ok.mp h
  rw [Grammar.eq_start_of_parser hq]

theorem eq_feed_of_parseText {filter : Filter} {text : String}
    (h : l.parseText root filter text = .ok p) :
    p = l.feed filter (Lexicon.cutEvery l.lexicon.chunkSize text.toList) (.start root) := by
  obtain ⟨q, hq, h⟩ := bind_eq_ok.mp h
  obtain ⟨chunks, hchunks, h⟩ := bind_eq_ok.mp h
  rw [mapError_eq_ok] at hq hchunks
  unfold Lexicon.chunksOf at hchunks
  split at hchunks
  · contradiction
  · cases hchunks
    cases h
    rw [Grammar.eq_start_of_parser hq]

theorem parse_eq_ok (hroot : l.grammar.catalog.contains root = true) (filter : Filter)
    (chunks : List (List Char)) :
    l.parse root filter chunks = .ok (l.feed filter chunks (.start root)) := by
  rw [parse, Grammar.parser, if_pos hroot]
  rfl

theorem parseText_eq_ok (hroot : l.grammar.catalog.contains root = true) (filter : Filter)
    (hsize : l.lexicon.chunkSize < Lexicon.readLimit) (text : String) :
    l.parseText root filter text =
      .ok (l.feed filter (Lexicon.cutEvery l.lexicon.chunkSize text.toList) (.start root)) := by
  rw [parseText, Grammar.parser, if_pos hroot, Lexicon.chunksOf, if_neg (by omega)]
  rfl

/-! ### Trees of a source -/

theorem exists_tiles_of_feed [Text.CharacterNames]
    (hl : build terminals productions chunkSize = .ok l) (hr : l.grammar.NoHiddenLeftRecursion)
    {chunks : List (List Char)} (haccepted : (l.feed .all chunks (.start root)).accepted = true) :
    ∃ tree, (l.feed .all chunks (.start root)).root? = some tree ∧
      tree.Tiles (chunks.takeWhile (· ≠ [])).flatten := by
  obtain ⟨c, hc, hlexicon, hgrammar⟩ := exists_of_build hl
  have hcatalog := (Catalog.build_eq_ok_iff.mp hc).2.2
  have hwf := Grammar.wellFormed_of_build hcatalog hgrammar
  obtain ⟨body, last, htokens, hbody, -, hlast, htext⟩ :=
    Lexicon.exists_scanChunks_eq hcatalog hlexicon chunks
  have hplaced := l.lexicon.placed_scanChunks chunks
  have hjoined := l.lexicon.isChain_scanChunks chunks
  rw [← (Grammar.slots_of_build hgrammar).1] at hbody
  rw [feed, Filter.run_all, htokens] at haccepted ⊢
  rw [htokens] at hplaced hjoined
  obtain ⟨tree, hheld, hroot, hleaves⟩ := Parser.exists_tree_of_accepted hwf hr hbody haccepted
  obtain ⟨hfits, hstart⟩ := Parser.fits_of_held hwf hr hplaced hjoined hheld
  have hfront : tree.leaves <+: body ++ [last] := by
    rcases hleaves with h | h
    · exact h ▸ List.prefix_append _ _
    · exact h ▸ List.prefix_rfl
  have hcovers : textOfTokens tree.leaves = (chunks.takeWhile (· ≠ [])).flatten := by
    rcases hleaves with h | h
    · rw [h, htext]
    · rw [h, textOfTokens_append, htext]
      simp [textOfTokens, hlast]
  exact ⟨tree, hroot, hfits.tiles (hplaced.of_front hfront) hstart hcovers⟩

/-- **An accepted source is tiled by its tree.** In a language that was built, and whatever its
patterns are, a source that is accepted without a filter has a tree whose text is the whole input.
The tree reaches from the beginning of the input to its end without gaps, and every node in it
covers precisely the slice of the input between the leaves before it and those after it. It makes no
difference in which chunks the input is delivered, or whether it is a text. -/
theorem tiles_of_accepted [Text.CharacterNames] (hl : build terminals productions chunkSize = .ok l)
    (hr : l.grammar.NoHiddenLeftRecursion) (root : String) :
    (∀ chunks p, l.parse root .all chunks = .ok p → p.accepted = true →
      ∃ tree, p.root? = some tree ∧ tree.Tiles (chunks.takeWhile (· ≠ [])).flatten) ∧
    ∀ text p, l.parseText root .all text = .ok p → p.accepted = true →
      ∃ tree, p.root? = some tree ∧ tree.Tiles text.toList := by
  constructor
  · intro chunks p hp haccepted
    obtain rfl := eq_feed_of_parse hp
    exact exists_tiles_of_feed hl hr haccepted
  · intro text p hp haccepted
    obtain rfl := eq_feed_of_parseText hp
    obtain ⟨c, -, hlexicon, -⟩ := exists_of_build hl
    have htiles := exists_tiles_of_feed hl hr haccepted
    rw [Lexicon.takeWhile_cutEvery, Lexicon.flatten_cutEvery (Lexicon.chunkSize_pos hlexicon)]
      at htiles
    exact htiles

/-- Words, and anything else between two of them. -/
def wordProductions : Productions := [
  ("LINE", [["WORD", "MORE"]]),
  ("MORE", [["OTHER", "WORD", "MORE"], []])]

/-- Two words, with a line end between them that is cut in two by the chunks. The tree ends with an
empty node. -/
theorem tiles_of_accepted_words :
    let chunks := ["ab".toList, "c\r".toList, "\nd".toList]
    ∃ l p q, build Lexicon.wordTerminals wordProductions 4 = .ok l ∧
      l.grammar.NoHiddenLeftRecursion ∧
      l.parse "LINE" .all chunks = .ok p ∧ p.accepted = true ∧
      l.parseText "LINE" .all "abc\r\nd" = .ok q ∧ q.accepted = true ∧
      (∃ tree, p.root? = some tree ∧ tree.Tiles "abc\r\nd".toList) ∧
      ∃ tree, q.root? = some tree ∧ tree.Tiles "abc\r\nd".toList := by
  intro chunks
  have haccepts : ((build Lexicon.wordTerminals wordProductions 4).toOption.any fun l =>
      (l.parse "LINE" .all chunks).toOption.any (·.accepted) &&
        (l.parseText "LINE" .all "abc\r\nd").toOption.any (·.accepted)) = true := by
    decide +kernel
  simp only [Option.any_eq_true, Bool.and_eq_true] at haccepts
  obtain ⟨l, hl, ⟨p, hp, haccepted⟩, q, hq, haccepted'⟩ := haccepts
  replace hl := eq_ok_of_toOption hl
  replace hp := eq_ok_of_toOption hp
  replace hq := eq_ok_of_toOption hq
  have hr : l.grammar.NoHiddenLeftRecursion := by
    obtain ⟨c, hc, -, hgrammar⟩ := exists_of_build hl
    cases hc
    rw [← Except.ok.inj hgrammar]
    exact Grammar.noHiddenLeftRecursion_of_rank (["MORE", "LINE"].idxOf) (by decide)
  obtain ⟨hchunks, htext⟩ := tiles_of_accepted hl hr "LINE"
  exact ⟨l, p, q, hl, hr, hp, haccepted, hq, haccepted', hchunks chunks p hp haccepted,
    htext _ q hq haccepted'⟩

end Language

end Lookahead
