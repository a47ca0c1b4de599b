import Reconcile.Proofs.Code.Terms

/-!
# Terms of the lines of comparisons

What each form of line is cut into, given that the expressions of both sides lie within one term
each.
-/

namespace Reconcile.Term

variable {first second : String}

theorem ofLine_missing (firstWhole : IsWhole first) (secondWhole : IsWhole second) :
    ofLine ("if ackcompare.HasNilDifference(" ++ first ++ ", " ++ second ++ ")" ++ " \x7b") =
      [⟨'\n', "if", ' '⟩, ⟨' ', "ackcompare.HasNilDifference", '('⟩] ++
        (close '(' first.toList ',' ++ close ' ' second.toList ')') := by
  simp [ofLine, scan_append firstWhole, scan_append secondWhole, scan, isLetter,
    Text.isWordLetter, close]

theorem ofLine_present (firstWhole : IsWhole first) (secondWhole : IsWhole second) :
    ofLine ("\x7d " ++ ("else if " ++ (first ++ " != nil") ++ " && " ++ (second ++ " != nil")) ++
        " \x7b") =
      [⟨' ', "else", ' '⟩, ⟨' ', "if", ' '⟩] ++ (close ' ' first.toList ' ' ++
        ([⟨' ', "nil", ' '⟩] ++ (close ' ' second.toList ' ' ++ [⟨' ', "nil", ' '⟩]))) := by
  simp [ofLine, scan_append firstWhole, scan_append secondWhole, scan, isLetter,
    Text.isWordLetter, close]

theorem ofLine_follow (firstWhole : IsWhole first) (secondWhole : IsWhole second) :
    ofLine ("if " ++ ("*" ++ first ++ " != *" ++ second) ++ " \x7b") =
      [⟨'\n', "if", ' '⟩] ++ (close '*' first.toList ' ' ++ close '*' second.toList ' ') := by
  simp [ofLine, scan_append firstWhole, scan_append secondWhole, scan, isLetter,
    Text.isWordLetter, close]

theorem ofLine_method (firstWhole : IsWhole first) (secondWhole : IsWhole second) :
    ofLine ("if " ++ ("!" ++ first ++ ".Equal(" ++ second ++ ")") ++ " \x7b") =
      [⟨'\n', "if", ' '⟩, ⟨'!', first ++ ".Equal", '('⟩] ++ close '(' second.toList ')' := by
  simp [ofLine, scan_append firstWhole, scan_append secondWhole, scan, isLetter,
    Text.isWordLetter, close, String.ofList_append]

theorem ofLine_blob (firstWhole : IsWhole first) (secondWhole : IsWhole second) :
    ofLine ("if " ++ ("!bytes.Equal(" ++ first ++ ", " ++ second ++ ")") ++ " \x7b") =
      [⟨'\n', "if", ' '⟩, ⟨'!', "bytes.Equal", '('⟩] ++
        (close '(' first.toList ',' ++ close ' ' second.toList ')') := by
  simp [ofLine, scan_append firstWhole, scan_append secondWhole, scan, isLetter,
    Text.isWordLetter, close]

theorem ofLine_whole (firstWhole : IsWhole first) (secondWhole : IsWhole second) :
    ofLine ("if " ++ ("!equality.Semantic.Equalities.DeepEqual(" ++ first ++ ", " ++ second ++
        ")") ++ " \x7b") =
      [⟨'\n', "if", ' '⟩, ⟨'!', "equality.Semantic.Equalities.DeepEqual", '('⟩] ++
        (close '(' first.toList ',' ++ close ' ' second.toList ')') := by
  simp [ofLine, scan_append firstWhole, scan_append secondWhole, scan, isLetter,
    Text.isWordLetter, close]

theorem ofLine_length (firstWhole : IsWhole first) (secondWhole : IsWhole second) :
    ofLine ("if " ++ ("len(" ++ first ++ ") != len(" ++ second ++ ")") ++ " \x7b") =
      [⟨'\n', "if", ' '⟩, ⟨' ', "len", '('⟩] ++ (close '(' first.toList ')' ++
        ([⟨' ', "len", '('⟩] ++ close '(' second.toList ')')) := by
  simp [ofLine, scan_append firstWhole, scan_append secondWhole, scan, isLetter,
    Text.isWordLetter, close]

theorem ofLine_textList (firstWhole : IsWhole first) (secondWhole : IsWhole second) :
    ofLine ("if " ++ ("!ackcompare.SliceStringPEqual(" ++ first ++ ", " ++ second ++ ")") ++
        " \x7b") =
      [⟨'\n', "if", ' '⟩, ⟨'!', "ackcompare.SliceStringPEqual", '('⟩] ++
        (close '(' first.toList ',' ++ close ' ' second.toList ')') := by
  simp [ofLine, scan_append firstWhole, scan_append secondWhole, scan, isLetter,
    Text.isWordLetter, close]

theorem ofLine_textMap (firstWhole : IsWhole first) (secondWhole : IsWhole second) :
    ofLine ("if " ++ ("!ackcompare.MapStringStringPEqual(" ++ first ++ ", " ++ second ++ ")") ++
        " \x7b") =
      [⟨'\n', "if", ' '⟩, ⟨'!', "ackcompare.MapStringStringPEqual", '('⟩] ++
        (close '(' first.toList ',' ++ close ' ' second.toList ')') := by
  simp [ofLine, scan_append firstWhole, scan_append secondWhole, scan, isLetter,
    Text.isWordLetter, close]

theorem ofLine_helper {function : String} (functionWhole : IsWhole function)
    (nonempty : function ≠ "") (firstWhole : IsWhole first) (secondWhole : IsWhole second) :
    ofLine ("if " ++ ("!" ++ function ++ "(" ++ first ++ ", " ++ second ++ ")") ++ " \x7b") =
      [⟨'\n', "if", ' '⟩, ⟨'!', function, '('⟩] ++
        (close '(' first.toList ',' ++ close ' ' second.toList ')') := by
  simp [ofLine, scan_append firstWhole, scan_append secondWhole, scan_append functionWhole, scan,
    isLetter, Text.isWordLetter, close, nonempty]

theorem ofLine_firstTags (firstWhole : IsWhole first) :
    ofLine ("desiredACKTags, _ := convertToOrderedACKTags(" ++ first ++ ")") =
      [⟨'\n', "desiredACKTags", ','⟩, ⟨' ', "_", ' '⟩, ⟨' ', "convertToOrderedACKTags", '('⟩] ++
        close '(' first.toList ')' := by
  simp [ofLine, scan_append firstWhole, scan, isLetter, Text.isWordLetter, close]

theorem ofLine_secondTags (secondWhole : IsWhole second) :
    ofLine ("latestACKTags, _ := convertToOrderedACKTags(" ++ second ++ ")") =
      [⟨'\n', "latestACKTags", ','⟩, ⟨' ', "_", ' '⟩, ⟨' ', "convertToOrderedACKTags", '('⟩] ++
        close '(' second.toList ')' := by
  simp [ofLine, scan_append secondWhole, scan, isLetter, Text.isWordLetter, close]

theorem ofLine_nonempty (firstWhole : IsWhole first) :
    ofLine ("\x7d " ++ ("else if len(" ++ first ++ ") > 0") ++ " \x7b") =
      [⟨' ', "else", ' '⟩, ⟨' ', "if", ' '⟩, ⟨' ', "len", '('⟩] ++ close '(' first.toList ')' ++
        [⟨' ', "0", ' '⟩] := by
  simp [ofLine, scan_append firstWhole, scan, isLetter, Text.isWordLetter, close]

theorem ofLine_eachKey (firstWhole : IsWhole first) :
    ofLine ("for k := range " ++ first ++ " \x7b") =
      [⟨'\n', "for", ' '⟩, ⟨' ', "k", ' '⟩, ⟨' ', "range", ' '⟩] ++ close ' ' first.toList ' ' := by
  simp [ofLine, scan_append firstWhole, scan, isLetter, Text.isWordLetter, close]

theorem ofLine_lacksKey (secondWhole : IsWhole second) :
    ofLine ("if _, ok := " ++ second ++ "; !ok" ++ " \x7b") =
      [⟨'\n', "if", ' '⟩, ⟨' ', "_", ','⟩, ⟨' ', "ok", ' '⟩] ++ close ' ' second.toList ';' ++
        [⟨'!', "ok", ' '⟩] := by
  simp [ofLine, scan_append secondWhole, scan, isLetter, Text.isWordLetter, close]

theorem ofLine_eachIndex (firstWhole : IsWhole first) :
    ofLine ("for i := range " ++ first ++ " \x7b") =
      [⟨'\n', "for", ' '⟩, ⟨' ', "i", ' '⟩, ⟨' ', "range", ' '⟩] ++ close ' ' first.toList ' ' := by
  simp [ofLine, scan_append firstWhole, scan, isLetter, Text.isWordLetter, close]

theorem ofLine_eachEntry (firstWhole : IsWhole first) :
    ofLine ("for k, av := range " ++ first ++ " \x7b") =
      [⟨'\n', "for", ' '⟩, ⟨' ', "k", ','⟩, ⟨' ', "av", ' '⟩, ⟨' ', "range", ' '⟩] ++
        close ' ' first.toList ' ' := by
  simp [ofLine, scan_append firstWhole, scan, isLetter, Text.isWordLetter, close]

theorem ofLine_entryValue (secondWhole : IsWhole second) :
    ofLine ("bv := " ++ second) = [⟨'\n', "bv", ' '⟩] ++ close ' ' second.toList '\n' := by
  simp [ofLine, scan_whole secondWhole, scan, isLetter, Text.isWordLetter, close]

end Reconcile.Term
