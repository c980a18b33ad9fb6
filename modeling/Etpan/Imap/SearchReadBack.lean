import Etpan.Imap.SearchSend

namespace Etpan.Imap

open Computability Etpan.Data Grammar

/-! The text of a search key is read back as the key. -/

section Sent

variable {literalplus : Bool} {unkeywordReads : List UInt8 → Language UInt8}

theorem keyedSend_text {token : String} (plain : (asciiText token).all Grammar.isTextChar = true) (argument : Sending) :
    (keyedSend token argument).text = asciiText token ++ (asciiText " " ++ argument.text) := by
  simp only [keyedSend, Sending.text_append, mailimapTokenSend_plain token plain, mailimapSpaceSend_text, asciiText_SP,
    List.append_assoc]

theorem keyedSend_reads {token : String} (plain : (asciiText token).all Grammar.isTextChar = true) {argument : Sending}
    {arguments : Language UInt8} (reads : argument.text ∈ arguments) :
    (keyedSend token argument).text ∈ terminal token * (SP * arguments) := by
  rw [keyedSend_text plain]
  exact Language.append_mem_mul (mem_terminal token) (Language.append_mem_mul (mem_terminal " ") reads)

theorem KeyWord.token_plain (keyWord : KeyWord) : (asciiText keyWord.token).all Grammar.isTextChar = true := by
  have checked : ∀ keyWord ∈ keyWords, (asciiText keyWord.token).all Grammar.isTextChar = true := by decide
  exact checked keyWord (mem_keyWords keyWord)

theorem spaced_reads {first second : Sending} {reads reads' : Language UInt8} (isFirst : first.text ∈ reads)
    (isSecond : second.text ∈ reads') : Sending.text (first ++ mailimapSpaceSend ++ second) ∈ reads * (SP * reads') := by
  rw [Sending.text_append, Sending.text_append, List.append_assoc]
  exact Language.append_mem_mul isFirst (Language.append_mem_mul (mem_terminal " ") isSecond)

theorem mailimapStructSpacedListSend_cons (first second : Sending) (rest : List Sending) :
    (mailimapStructSpacedListSend (first :: second :: rest) id).text =
      first.text ++ (asciiText " " ++ (mailimapStructSpacedListSend (second :: rest) id).text) := by
  rw [mailimapStructSpacedListSend, mailimapStructSpacedListSend, mailimapStructListSend_text, mailimapStructListSend_text]
  rfl

theorem searchKeyNotoplevelSends_reads {keys : List SearchKey} (nonempty : keys ≠ [])
    (each : ∀ key ∈ keys, ∃ sending, searchKeySend literalplus false key = some sending ∧
      sending.text ∈ searchKeyReadsWith unkeywordReads key) :
    ∃ sendings, searchKeyNotoplevelSends literalplus keys = some sendings ∧ sendings ≠ [] ∧
      (mailimapStructSpacedListSend sendings id).text ∈ searchKeysReadsWith unkeywordReads keys := by
  induction keys with
  | nil => exact absurd rfl nonempty
  | cons key keys ih =>
      obtain ⟨first, sent, reads⟩ := each key (by simp)
      cases keys with
      | nil =>
          refine ⟨[first], by simp [searchKeyNotoplevelSends, sent], by simp, ?_⟩
          have alone : (mailimapStructSpacedListSend [first] id).text = first.text := congrArg Sending.text (List.append_nil first)
          rw [alone, searchKeysReadsWith]
          exact reads
      | cons next keys =>
          obtain ⟨sendings, sentRest, restNonempty, readsRest⟩ := ih (by simp) fun other member => each other (by simp [member])
          obtain ⟨second, rest, rfl⟩ := List.exists_cons_of_ne_nil restNonempty
          refine ⟨first :: second :: rest, ?_, by simp, ?_⟩
          · rw [searchKeyNotoplevelSends, sent, sentRest]
            rfl
          · rw [mailimapStructSpacedListSend_cons, searchKeysReadsWith]
            exact Language.append_mem_mul reads (Language.append_mem_mul (mem_terminal " ") readsRest)

/-- Keys of the grammar with allowed arguments, whose UNKEYWORDs are sent as they are read. -/
structure SentAsRead (unkeywordReads : List UInt8 → Language UInt8) (nodes : List SearchKey) : Prop where
  allowed : ∀ node ∈ nodes, node.Allowed
  produced : ∀ node ∈ nodes, node.hasProduction = true
  unkeyword : ∀ keyword, .unkeyword keyword ∈ nodes → (mailimapAstringSend keyword).text ∈ unkeywordReads keyword

theorem SentAsRead.mono {nodes fewer : List SearchKey} (sent : SentAsRead unkeywordReads nodes)
    (included : ∀ node ∈ fewer, node ∈ nodes) : SentAsRead unkeywordReads fewer where
  allowed := fun node isNode => sent.allowed node (included node isNode)
  produced := fun node isNode => sent.produced node (included node isNode)
  unkeyword := fun keyword isNode => sent.unkeyword keyword (included _ isNode)

theorem not_nodes {inner node : SearchKey} (isNode : node ∈ inner.nodes) : node ∈ (SearchKey.not inner).nodes := by
  simp [SearchKey.nodes, isNode]

theorem or_nodes_left {first second node : SearchKey} (isNode : node ∈ first.nodes) : node ∈ (SearchKey.or first second).nodes := by
  simp [SearchKey.nodes, isNode]

theorem or_nodes_right {first second node : SearchKey} (isNode : node ∈ second.nodes) : node ∈ (SearchKey.or first second).nodes := by
  simp [SearchKey.nodes, isNode]

theorem multiple_nodes {keys : List SearchKey} {inner node : SearchKey} (member : inner ∈ keys) (isNode : node ∈ inner.nodes) :
    node ∈ (SearchKey.multiple keys).nodes := by
  rw [SearchKey.nodes]
  exact List.mem_cons_of_mem _ (nodes_of_mem member isNode)

theorem searchKeySend_reads (key : SearchKey) (asRead : SentAsRead unkeywordReads key.nodes) :
    ∃ sending, searchKeySend literalplus false key = some sending ∧
      sending.text ∈ searchKeyReadsWith unkeywordReads key := by
  have here := asRead.allowed key (mem_nodes_self key)
  have ascii : ∀ {string : List UInt8}, Printable string →
      mailimapAstringLiteralplusSend string literalplus = some (mailimapAstringSend string) := fun printable =>
    mailimapAstringLiteralplusSend_ascii fun byte member => (printable_spec (printable byte member)).2
  cases key with
  | flag type =>
      refine ⟨_, by rw [searchKeySend], ?_⟩
      rw [searchKeyReadsWith, mailimapTokenSend_plain type.token (KeyWord.token_plain (.flag type))]
      exact mem_terminal type.token
  | string type string =>
      refine ⟨_, by rw [searchKeySend, ascii here]; rfl, ?_⟩
      rw [searchKeyReadsWith]
      exact keyedSend_reads (KeyWord.token_plain (.string type)) (mailimapAstringSend_reads here)
  | date type date =>
      obtain ⟨sending, sent, reads⟩ := mailimapDateSend_reads here
      refine ⟨_, by rw [searchKeySend, sent]; rfl, ?_⟩
      rw [searchKeyReadsWith]
      exact keyedSend_reads (KeyWord.token_plain (.date type)) reads
  | size type number =>
      refine ⟨_, by rw [searchKeySend], ?_⟩
      rw [searchKeyReadsWith]
      exact keyedSend_reads (KeyWord.token_plain (.size type)) (mailimapNumberSend_reads number)
  | keyword keyword =>
      refine ⟨_, by rw [searchKeySend], ?_⟩
      rw [searchKeyReadsWith]
      exact keyedSend_reads rfl (mailimapFlagKeywordSend_reads here)
  | unkeyword keyword =>
      refine ⟨_, by rw [searchKeySend, ascii (atom_printable here)]; rfl, ?_⟩
      rw [searchKeyReadsWith]
      exact keyedSend_reads rfl (asRead.unkeyword keyword (mem_nodes_self _))
  | header name value =>
      refine ⟨_, by rw [searchKeySend, ascii here.2]; rfl, ?_⟩
      rw [searchKeyReadsWith]
      exact keyedSend_reads rfl (spaced_reads (mailimapAstringSend_reads here.1) (mailimapAstringSend_reads here.2))
  | not inner =>
      obtain ⟨sending, sent, reads⟩ := searchKeySend_reads inner (asRead.mono fun _ => not_nodes)
      refine ⟨_, by rw [searchKeySend, sent]; rfl, ?_⟩
      rw [searchKeyReadsWith]
      exact keyedSend_reads rfl reads
  | or first second =>
      obtain ⟨sending, sent, reads⟩ := searchKeySend_reads first (asRead.mono fun _ => or_nodes_left)
      obtain ⟨sending', sent', reads'⟩ := searchKeySend_reads second (asRead.mono fun _ => or_nodes_right)
      refine ⟨_, by rw [searchKeySend, sent, sent']; rfl, ?_⟩
      rw [searchKeyReadsWith]
      exact keyedSend_reads rfl (spaced_reads reads reads')
  | uid set =>
      refine ⟨_, by rw [searchKeySend], ?_⟩
      rw [searchKeyReadsWith]
      exact keyedSend_reads rfl (by rw [mailimapSetSend_text]; exact setText_reads here)
  | set set =>
      refine ⟨_, by rw [searchKeySend], ?_⟩
      rw [searchKeyReadsWith, mailimapSetSend_text]
      exact setText_reads here
  | multiple keys =>
      have each : ∀ inner ∈ keys, ∃ sending, searchKeySend literalplus false inner = some sending ∧
          sending.text ∈ searchKeyReadsWith unkeywordReads inner := by
        intro inner member
        exact searchKeySend_reads inner (asRead.mono fun _ => multiple_nodes member)
      obtain ⟨sendings, sent, -, reads⟩ := searchKeyNotoplevelSends_reads here each
      refine ⟨_, by rw [searchKeySend, sent]; rfl, ?_⟩
      rw [searchKeyReadsWith]
      simp only [Bool.false_eq_true, if_false, Sending.text_append, List.append_assoc]
      exact Language.append_mem_mul (mem_terminal "(") (Language.append_mem_mul reads (mem_terminal ")"))
  | xgmthrid | xgmmsgid | xgmraw | modseq => cases asRead.produced _ (mem_nodes_self _)
termination_by sizeOf key
decreasing_by
  all_goals subst key
  all_goals simp_wf
  all_goals first | omega | exact Nat.lt_trans (List.sizeOf_lt_of_mem member) (by omega)

theorem searchKeySend_toplevel (key : SearchKey) (single : ∀ keys, key ≠ .multiple keys) :
    searchKeySend literalplus true key = searchKeySend literalplus false key ∧ key.topKeys = [key] := by
  cases key with
  | multiple keys => exact absurd rfl (single keys)
  | _ => exact ⟨by simp only [searchKeySend], rfl⟩

theorem searchKeySend_toplevel_reads {key : SearchKey} (asRead : SentAsRead unkeywordReads key.nodes) :
    ∃ sending, searchKeySend literalplus true key = some sending ∧
      sending.text ∈ searchKeysReadsWith unkeywordReads key.topKeys := by
  by_cases multiple : ∃ keys, key = .multiple keys
  · obtain ⟨keys, rfl⟩ := multiple
    have each : ∀ inner ∈ keys, ∃ sending, searchKeySend literalplus false inner = some sending ∧
        sending.text ∈ searchKeyReadsWith unkeywordReads inner := fun inner member =>
      searchKeySend_reads inner (asRead.mono fun _ => multiple_nodes member)
    obtain ⟨sendings, sent, -, reads⟩ := searchKeyNotoplevelSends_reads (asRead.allowed _ (mem_nodes_self _)) each
    exact ⟨_, by rw [searchKeySend, sent]; rfl, reads⟩
  · obtain ⟨same, top⟩ := searchKeySend_toplevel key (not_exists.mp multiple)
    rw [same, top, searchKeysReadsWith]
    exact searchKeySend_reads key asRead

end Sent

/-! ### The productions of the grammar are among those with any astring for UNKEYWORD -/

theorem flagKeywordReads_le (keyword : List UInt8) : flagKeywordReads keyword ≤ astringReads keyword := by
  rintro text ⟨atom, rfl⟩
  obtain ⟨nonempty, chars⟩ := mem_octets_one.mp atom
  refine .inl ⟨mem_octets_one.mpr ⟨nonempty, fun byte member => ?_⟩, rfl⟩
  rw [Grammar.isAstringChar, chars byte member, Bool.true_or]

theorem listReads_mono {α : Type} {separator : Language UInt8} {read read' : α → Language UInt8} {list : List α}
    (each : ∀ value ∈ list, read value ≤ read' value) : listReads separator read list ≤ listReads separator read' list := by
  induction list with
  | nil => exact le_rfl
  | cons value list ih =>
      cases list with
      | nil => exact each value (by simp)
      | cons next list =>
          exact mul_le_mul' (each value (by simp)) (mul_le_mul' le_rfl (ih fun other member => each other (by simp [member])))

theorem searchKeyReadsWith_mono {narrow wide : List UInt8 → Language UInt8} (included : ∀ keyword, narrow keyword ≤ wide keyword)
    (key : SearchKey) : searchKeyReadsWith narrow key ≤ searchKeyReadsWith wide key := by
  cases key with
  | unkeyword keyword =>
      rw [searchKeyReadsWith, searchKeyReadsWith]
      exact mul_le_mul' le_rfl (mul_le_mul' le_rfl (included keyword))
  | not inner =>
      rw [searchKeyReadsWith, searchKeyReadsWith]
      exact mul_le_mul' le_rfl (mul_le_mul' le_rfl (searchKeyReadsWith_mono included inner))
  | or first second =>
      rw [searchKeyReadsWith, searchKeyReadsWith]
      exact mul_le_mul' le_rfl (mul_le_mul' le_rfl (mul_le_mul' (searchKeyReadsWith_mono included first)
        (mul_le_mul' le_rfl (searchKeyReadsWith_mono included second))))
  | multiple keys =>
      have lists : listReads SP (searchKeyReadsWith narrow) keys ≤ listReads SP (searchKeyReadsWith wide) keys := by
        apply listReads_mono
        intro inner member
        exact searchKeyReadsWith_mono included inner
      rw [searchKeyReadsWith, searchKeyReadsWith, searchKeysReadsWith_eq, searchKeysReadsWith_eq]
      exact mul_le_mul' le_rfl (mul_le_mul' lists le_rfl)
  | _ =>
      rw [searchKeyReadsWith, searchKeyReadsWith]
termination_by sizeOf key
decreasing_by
  all_goals subst key
  all_goals simp_wf
  all_goals first | omega | exact Nat.lt_trans (List.sizeOf_lt_of_mem member) (by omega)

theorem astringReads_unique_argument : UniquelyRead astringReads isArgumentEnd :=
  astringReads_unique.mono (isArgumentEnd_outside rfl rfl)

/-! ### What the text of a key says about the key -/

theorem exists_reads_of_mem {α : Type} {separator : Language UInt8} {read : α → Language UInt8} {list : List α} {text : List UInt8}
    (reads : text ∈ listReads separator read list) : ∀ value ∈ list, ∃ word, word ∈ read value := by
  induction list generalizing text with
  | nil => exact absurd reads (Language.notMem_zero text)
  | cons value list ih =>
      intro other member
      cases list with
      | nil =>
          rw [List.mem_singleton.mp member]
          exact ⟨text, reads⟩
      | cons next list =>
          obtain ⟨front, isFront, back, isBack, -⟩ := Language.mem_mul.mp reads
          obtain ⟨mark, -, rest, isRest, -⟩ := Language.mem_mul.mp isBack
          rcases List.mem_cons.mp member with rfl | later
          · exact ⟨front, isFront⟩
          · exact ih isRest other later

theorem exists_argument {token : String} {arguments : Language UInt8} {text : List UInt8}
    (reads : text ∈ terminal token * (SP * arguments)) : ∃ argument, argument ∈ arguments := by
  obtain ⟨front, -, back, isBack, -⟩ := Language.mem_mul.mp reads
  obtain ⟨mark, -, argument, isArgument, -⟩ := Language.mem_mul.mp isBack
  exact ⟨argument, isArgument⟩

theorem hasProduction_of_reads {unkeywordReads : List UInt8 → Language UInt8} (key : SearchKey) {text : List UInt8}
    (reads : text ∈ searchKeyReadsWith unkeywordReads key) : ∀ node ∈ key.nodes, node.hasProduction = true := by
  cases key with
  | not inner =>
      rw [searchKeyReadsWith] at reads
      obtain ⟨word, isWord⟩ := exists_argument reads
      have below := hasProduction_of_reads inner isWord
      simpa [SearchKey.nodes, SearchKey.hasProduction] using below
  | or first second =>
      rw [searchKeyReadsWith] at reads
      obtain ⟨words, areWords⟩ := exists_argument reads
      obtain ⟨word, isWord, back, isBack, -⟩ := Language.mem_mul.mp areWords
      obtain ⟨mark, -, word', isWord', -⟩ := Language.mem_mul.mp isBack
      have belowFirst := hasProduction_of_reads first isWord
      have belowSecond := hasProduction_of_reads second isWord'
      intro node isNode
      rw [SearchKey.nodes, List.mem_cons, List.mem_append] at isNode
      rcases isNode with rfl | inFirst | inSecond
      · rfl
      · exact belowFirst node inFirst
      · exact belowSecond node inSecond
  | multiple keys =>
      rw [searchKeyReadsWith, searchKeysReadsWith_eq] at reads
      obtain ⟨front, -, back, isBack, -⟩ := Language.mem_mul.mp reads
      obtain ⟨list, isList, -⟩ := Language.mem_mul.mp isBack
      intro node isNode
      rw [SearchKey.nodes, List.mem_cons] at isNode
      rcases isNode with rfl | below
      · rfl
      · obtain ⟨inner, member, inInner⟩ := exists_of_mem_nodesOf below
        obtain ⟨word, isWord⟩ := exists_reads_of_mem isList inner member
        exact hasProduction_of_reads inner isWord node inInner
  | xgmthrid | xgmmsgid | xgmraw | modseq =>
      rw [searchKeyReadsWith] at reads
      exact absurd reads (Language.notMem_zero text)
  | _ => simp [SearchKey.nodes, SearchKey.hasProduction]
termination_by sizeOf key
decreasing_by
  all_goals subst key
  all_goals simp_wf
  all_goals first | omega | exact Nat.lt_trans (List.sizeOf_lt_of_mem member) (by omega)

theorem sentAsRead_astring {nodes : List SearchKey} (allowed : ∀ node ∈ nodes, node.Allowed)
    (produced : ∀ node ∈ nodes, node.hasProduction = true) : SentAsRead astringReads nodes where
  allowed := allowed
  produced := produced
  unkeyword := fun _ isNode => mailimapAstringSend_reads (atom_printable (allowed _ isNode))

/-- Where a key is sent before a space, the grammar reads exactly the octets sent for it as the
key. -/
theorem cut_key {key : SearchKey} {first rest : List UInt8} {others : Language UInt8}
    (sent : first ∈ searchKeyReadsWith astringReads key)
    (reads : first ++ (asciiText " " ++ rest) ∈ searchKeyReads key * (SP * others)) :
    first ∈ searchKeyReads key ∧ rest ∈ others := by
  obtain ⟨word, isWord, back, isBack, same⟩ := Language.mem_mul.mp reads
  have spaces : StopsAt isArgumentEnd back := (stopsAt_SP_mul back isBack).mono fun byte space => by
    rw [isArgumentEnd, space, Bool.true_or]
  have space : StopsAt isArgumentEnd (asciiText " " ++ rest) := stopsAt_cons.mpr rfl
  have wide := searchKeyReadsWith_mono flagKeywordReads_le key isWord
  obtain ⟨-, rfl, rfl⟩ := searchKeyReadsWith_unique astringReads_unique_argument key wide sent spaces space same
  exact ⟨isWord, terminal_mul.mp isBack⟩

theorem isAtom_of_reads {keyword : List UInt8} (atom : keyword ∈ Grammar.atom)
    (reads : (mailimapAstringSend keyword).text ∈ flagKeywordReads keyword) : isAtom keyword = true := by
  by_contra notAtom
  rw [mailimapAstringSend_text (atom_printable atom).nulFree, if_neg notAtom] at reads
  have quote := (mem_octets_one.mp reads.1).2 (ascii '"') (by rw [quotedText]; simp)
  exact absurd quote (by decide)

theorem searchKeyNotoplevelSends_cons {literalplus : Bool} {key : SearchKey} {keys : List SearchKey} {first : Sending}
    {sendings : List Sending} (sentFirst : searchKeySend literalplus false key = some first)
    (sent : searchKeyNotoplevelSends literalplus (key :: keys) = some sendings) :
    ∃ rest, searchKeyNotoplevelSends literalplus keys = some rest ∧ sendings = first :: rest := by
  rw [searchKeyNotoplevelSends, sentFirst] at sent
  cases sentRest : searchKeyNotoplevelSends literalplus keys with
  | none =>
      rw [sentRest] at sent
      cases sent
  | some rest =>
      rw [sentRest] at sent
      cases sent
      exact ⟨rest, rfl, rfl⟩

theorem searchKeyNotoplevelSends_cut {literalplus : Bool} {keys : List SearchKey} {sendings : List Sending}
    (allowed : ∀ key ∈ keys, SentAsRead astringReads key.nodes)
    (sent : searchKeyNotoplevelSends literalplus keys = some sendings)
    (reads : (mailimapStructSpacedListSend sendings id).text ∈ searchKeysReads keys) :
    ∀ key ∈ keys, ∃ sending, searchKeySend literalplus false key = some sending ∧ sending.text ∈ searchKeyReads key := by
  induction keys generalizing sendings with
  | nil =>
      intro key member
      cases member
  | cons key keys ih =>
      obtain ⟨first, sentFirst, readsFirst⟩ := @searchKeySend_reads literalplus _ key (allowed key (by simp))
      obtain ⟨rest, sentRest, rfl⟩ := searchKeyNotoplevelSends_cons sentFirst sent
      cases keys with
      | nil =>
          cases sentRest
          have alone : (mailimapStructSpacedListSend [first] id).text = first.text := congrArg Sending.text (List.append_nil first)
          rw [alone, searchKeysReads, searchKeysReadsWith] at reads
          simpa using ⟨first, sentFirst, reads⟩
      | cons next keys =>
          obtain ⟨second, sentSecond, -⟩ := @searchKeySend_reads literalplus _ next (allowed next (by simp))
          have restAllowed : ∀ other ∈ next :: keys, SentAsRead astringReads other.nodes := fun other member =>
            allowed other (by simp [member])
          obtain ⟨others, -, rfl⟩ := searchKeyNotoplevelSends_cons sentSecond sentRest
          rw [mailimapStructSpacedListSend_cons, searchKeysReads, searchKeysReadsWith] at reads
          obtain ⟨isFirst, isRest⟩ := cut_key readsFirst reads
          intro other member
          rcases List.mem_cons.mp member with rfl | later
          · exact ⟨first, sentFirst, isFirst⟩
          · exact ih restAllowed sentRest isRest other later

theorem plainUnkeyword_of_reads {literalplus : Bool} (key : SearchKey) (asRead : SentAsRead astringReads key.nodes)
    {sending : Sending} (sent : searchKeySend literalplus false key = some sending) (reads : sending.text ∈ searchKeyReads key) :
    ∀ node ∈ key.nodes, node.plainUnkeyword = true := by
  cases key with
  | unkeyword keyword =>
      have atom := asRead.allowed _ (mem_nodes_self _)
      have ascii := @mailimapAstringLiteralplusSend_ascii keyword literalplus fun byte member =>
        (printable_spec (atom_printable atom byte member)).2
      rw [searchKeySend, ascii] at sent
      cases sent
      rw [searchKeyReads, searchKeyReadsWith, keyedSend_text rfl] at reads
      have argument : (mailimapAstringSend keyword).text ∈ flagKeywordReads keyword := terminal_mul.mp (terminal_mul.mp reads)
      simpa [SearchKey.nodes, SearchKey.plainUnkeyword] using isAtom_of_reads atom argument
  | not inner =>
      have innerRead := asRead.mono fun _ => not_nodes
      obtain ⟨innerSending, innerSent, -⟩ := @searchKeySend_reads literalplus _ inner innerRead
      rw [searchKeySend, innerSent] at sent
      cases sent
      rw [searchKeyReads, searchKeyReadsWith, keyedSend_text rfl] at reads
      have below := plainUnkeyword_of_reads inner innerRead innerSent (terminal_mul.mp (terminal_mul.mp reads))
      simpa [SearchKey.nodes, SearchKey.plainUnkeyword] using below
  | or first second =>
      have firstRead := asRead.mono fun _ => @or_nodes_left first second _
      have secondRead := asRead.mono fun _ => @or_nodes_right first second _
      obtain ⟨firstSending, firstSent, wide⟩ := @searchKeySend_reads literalplus _ first firstRead
      obtain ⟨secondSending, secondSent, -⟩ := @searchKeySend_reads literalplus _ second secondRead
      rw [searchKeySend, firstSent, secondSent] at sent
      cases sent
      rw [searchKeyReads, searchKeyReadsWith, keyedSend_text rfl, Sending.text_append, Sending.text_append,
        List.append_assoc] at reads
      obtain ⟨isFirst, isSecond⟩ := cut_key wide (terminal_mul.mp (terminal_mul.mp reads))
      have belowFirst := plainUnkeyword_of_reads first firstRead firstSent isFirst
      have belowSecond := plainUnkeyword_of_reads second secondRead secondSent isSecond
      intro node isNode
      rw [SearchKey.nodes, List.mem_cons, List.mem_append] at isNode
      rcases isNode with rfl | inFirst | inSecond
      · rfl
      · exact belowFirst node inFirst
      · exact belowSecond node inSecond
  | multiple keys =>
      have each : ∀ inner ∈ keys, SentAsRead astringReads inner.nodes := fun inner member =>
        asRead.mono fun _ => multiple_nodes member
      obtain ⟨sendings, sentList, -⟩ := searchKeyNotoplevelSends_reads (asRead.allowed _ (mem_nodes_self _)) fun inner member =>
        @searchKeySend_reads literalplus _ inner (each inner member)
      rw [searchKeySend, sentList] at sent
      cases sent
      rw [searchKeyReads, searchKeyReadsWith, if_neg (by decide), Sending.text_append, Sending.text_append,
        List.append_assoc] at reads
      have list := (concat_mem_mul fun _ => mem_cparenth).mp (terminal_mul.mp reads)
      have cut := searchKeyNotoplevelSends_cut each sentList list
      intro node isNode
      rw [SearchKey.nodes, List.mem_cons] at isNode
      rcases isNode with rfl | below
      · rfl
      · obtain ⟨inner, member, inInner⟩ := exists_of_mem_nodesOf below
        obtain ⟨innerSending, innerSent, innerReads⟩ := cut inner member
        exact plainUnkeyword_of_reads inner (each inner member) innerSent innerReads node inInner
  | _ => simp [SearchKey.nodes, SearchKey.plainUnkeyword]
termination_by sizeOf key
decreasing_by
  all_goals subst key
  all_goals simp_wf
  all_goals first | omega | exact Nat.lt_trans (List.sizeOf_lt_of_mem member) (by omega)

/-- The key is sent, its text is derivable from the grammar as the keys it stands for, and is
read as no other keys. -/
def ReadBack (key : SearchKey) : Prop :=
  ∃ sending, mailimapSearchKeySend key = some sending ∧ sending.text ∈ searchKeysReads key.topKeys ∧
    ∀ keys, sending.text ∈ searchKeysReads keys → keys = key.topKeys

theorem searchKeysReads_unique {keys keys' : List SearchKey} {text : List UInt8} (reads : text ∈ searchKeysReads keys)
    (reads' : text ∈ searchKeysReads keys') : keys = keys' := by
  have keyword : UniquelyRead flagKeywordReads isArgumentEnd := flagKeywordReads_unique.mono (isArgumentEnd_outside rfl rfl)
  have unique := @searchKeysReadsWith_unique flagKeywordReads keys fun key _ => searchKeyReadsWith_unique keyword key
  exact (unique reads reads' (stopsAt_nil _) (stopsAt_nil _) rfl).1

theorem hasProduction_of_topKeys {key : SearchKey} {text : List UInt8} (reads : text ∈ searchKeysReads key.topKeys) :
    ∀ node ∈ key.nodes, node.hasProduction = true := by
  by_cases multiple : ∃ keys, key = .multiple keys
  · obtain ⟨keys, rfl⟩ := multiple
    rw [SearchKey.topKeys] at reads
    have inParentheses : asciiText "(" ++ (text ++ asciiText ")") ∈ searchKeyReads (.multiple keys) := by
      rw [searchKeyReads, searchKeyReadsWith]
      exact Language.append_mem_mul (mem_terminal "(") (Language.append_mem_mul reads (mem_terminal ")"))
    exact hasProduction_of_reads _ inParentheses
  · rw [(@searchKeySend_toplevel false key (not_exists.mp multiple)).2, searchKeysReads, searchKeysReadsWith] at reads
    exact hasProduction_of_reads key reads

theorem plainUnkeyword_of_topKeys {key : SearchKey} (asRead : SentAsRead astringReads key.nodes) {sending : Sending}
    (sent : mailimapSearchKeySend key = some sending) (reads : sending.text ∈ searchKeysReads key.topKeys) :
    ∀ node ∈ key.nodes, node.plainUnkeyword = true := by
  rw [mailimapSearchKeySend] at sent
  by_cases multiple : ∃ keys, key = .multiple keys
  · obtain ⟨keys, rfl⟩ := multiple
    -- the same text inside parentheses is what the list sends below the top
    cases sentList : searchKeyNotoplevelSends false keys with
    | none =>
        rw [searchKeySend, sentList] at sent
        cases sent
    | some sendings =>
        rw [searchKeySend, sentList] at sent
        cases sent
        refine plainUnkeyword_of_reads _ asRead (by rw [searchKeySend, sentList]; rfl) ?_
        rw [searchKeyReads, searchKeyReadsWith, if_neg (by decide), Sending.text_append, Sending.text_append,
          List.append_assoc]
        exact Language.append_mem_mul (mem_terminal "(") (Language.append_mem_mul reads (mem_terminal ")"))
  · obtain ⟨same, top⟩ := @searchKeySend_toplevel false key (not_exists.mp multiple)
    rw [top, searchKeysReads, searchKeysReadsWith] at reads
    exact plainUnkeyword_of_reads key asRead (same ▸ sent) reads

end Etpan.Imap
