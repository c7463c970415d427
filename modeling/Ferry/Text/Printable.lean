/-
  Ferry.Text.Printable

  The characters that are shown as themselves inside quoted text: neither controls, format
  characters, unassigned code points, fillers nor separators other than the plain space, and no mark
  that would attach to the character before it.
-/
import Ferry.Text.Run

namespace Ferry.Text

/-- Characters of the general categories Cc, Cf, Co, Cn, Zl, Zp and Zs, and those with the property
Default_Ignorable_Code_Point. -/
def unprintableRuns : List Run := chain 1 0
  [0,32,95,33,13,0,674,0,41,1,7,3,8,0,2,0,21,0,398,0,39,1,51,1,4,0,56,7,28,3,7,16,23,0,193,0,49,1,
   60,1,102,13,60,1,50,1,16,0,29,1,2,0,12,4,33,6,76,0,162,0,9,1,3,1,23,0,8,0,2,2,5,1,10,1,3,1,5,7,2,
   3,3,0,6,1,26,1,4,0,7,3,3,1,23,0,8,0,3,0,3,0,3,1,2,0,6,3,3,1,4,2,2,6,5,0,2,6,18,9,4,0,10,0,4,0,23,
   0,8,0,3,0,6,1,11,0,4,0,4,1,2,14,5,1,13,6,8,0,4,0,9,1,3,1,23,0,8,0,3,0,6,1,10,1,3,1,4,6,4,3,3,0,6,
   1,19,9,3,0,7,2,4,0,5,2,3,0,2,0,3,2,3,2,4,2,13,3,6,2,4,0,5,1,2,5,2,13,22,4,14,0,4,0,24,0,17,1,10,
   0,4,0,5,6,3,0,4,0,3,1,5,1,11,6,23,0,4,0,24,0,11,0,6,1,10,0,4,0,5,6,3,4,4,0,5,1,11,0,4,11,14,0,4,
   0,52,0,4,0,7,3,17,1,27,0,4,0,19,2,25,0,10,0,2,1,8,2,2,3,7,0,2,0,9,5,11,1,4,11,59,3,30,36,3,0,2,0,
   6,0,25,0,2,0,24,1,6,0,2,0,8,0,11,1,5,31,73,0,37,3,40,0,37,0,16,0,14,36,199,0,2,4,2,1,144,1,233,0,
   5,1,8,0,2,0,5,1,42,0,5,1,34,0,5,1,8,0,2,0,5,1,16,0,58,0,5,1,68,1,33,2,27,5,87,1,7,1,641,0,29,2,
   90,6,23,8,25,8,21,11,14,0,4,0,3,11,53,1,41,1,11,5,11,5,12,4,11,5,90,6,44,4,71,9,32,0,13,3,13,3,2,
   2,43,1,6,10,45,3,27,5,12,2,63,1,66,0,30,1,12,5,11,5,15,1,47,1,13,19,78,0,167,7,61,2,16,2,63,4,44,
   1,12,7,44,4,535,1,7,1,39,1,7,1,9,0,2,0,2,0,2,0,32,1,54,0,16,0,15,1,7,0,20,1,4,0,10,16,25,7,48,16,
   3,1,28,0,14,2,35,13,34,14,141,3,667,21,12,20,1813,1,383,4,46,0,2,4,2,1,57,6,3,13,25,8,8,0,8,0,8,
   0,8,0,8,0,8,0,8,0,8,0,127,33,27,0,90,11,215,25,17,0,64,0,87,1,104,4,44,0,52,0,43,0,87,8,49,0,
   29294,2,56,8,349,19,185,7,222,19,61,2,11,5,57,7,71,7,13,5,117,10,31,2,79,0,12,3,34,0,56,8,15,1,
   11,1,104,23,29,9,7,1,7,1,7,8,8,0,8,0,61,3,127,1,11,5,11173,11,24,3,50,8451,367,1,107,37,8,11,6,4,
   27,0,6,0,2,0,3,0,3,0,651,31,17,15,11,5,52,0,20,0,5,3,6,0,136,3,160,0,31,2,7,1,7,1,7,1,4,2,8,0,8,
   12,3,1,13,0,27,0,20,0,3,0,16,1,15,33,124,4,4,3,46,2,89,0,14,2,2,46,47,129,30,2,50,14,29,3,37,8,
   31,4,44,4,31,0,38,3,15,41,159,1,11,5,37,3,37,3,41,7,53,10,13,0,16,0,8,0,3,0,12,0,16,0,8,0,3,2,53,
   11,312,8,23,9,9,23,7,0,43,0,10,68,7,1,2,0,45,0,3,2,2,1,24,0,73,7,10,47,20,0,3,4,34,2,28,4,28,37,
   57,3,21,1,51,0,3,4,9,0,4,0,30,1,4,3,11,6,10,6,65,31,40,3,13,8,55,2,30,1,28,4,27,6,5,11,8,79,74,
   54,52,12,52,6,47,7,11,5,39,2,30,7,3,207,32,0,43,0,4,1,3,15,7,7,10,32,47,7,43,21,27,37,29,19,24,8,
   79,3,37,8,63,0,6,12,26,6,11,5,54,0,19,7,40,8,97,0,21,10,19,0,48,61,8,0,2,0,5,0,16,0,12,5,60,4,11,
   5,5,0,9,1,3,1,23,0,8,0,3,0,6,0,11,1,3,1,4,1,2,5,2,4,8,1,8,2,6,10,11,0,2,1,2,0,39,0,11,0,2,1,2,0,
   5,0,11,0,3,7,3,28,93,0,6,29,73,7,11,165,55,1,39,33,70,10,11,5,14,18,59,5,11,5,21,27,28,1,16,3,24,
   184,61,99,84,11,9,1,2,1,9,0,3,0,31,0,3,1,13,8,11,69,9,1,47,1,12,26,73,7,84,12,74,6,11,85,9,87,35,
   13,11,5,10,0,46,0,15,9,30,2,33,1,23,0,15,72,8,0,3,0,45,2,2,0,3,0,10,7,11,5,7,0,3,0,38,0,3,0,7,6,
   11,5,45,3,11,245,26,6,18,0,42,2,30,84,2,14,51,12,924,101,112,0,6,10,197,2635,100,12,1073,15,23,9,
   3996,4,584,6840,59,1733,570,6,32,0,11,3,82,0,11,5,31,1,7,9,71,9,11,0,8,0,22,4,20,431,59,197,92,4,
   26,1,26,43,76,3,58,6,18,63,6,10,8,8,7383,40,33,96,116,8700,5,0,8,0,3,0,292,14,2,28,4,1,2,13,5,7,
   397,2307,108,4,14,2,10,6,11,1,5,3935,254,2,437,5,24,14,18,14,47,1,24,8,117,59,247,9,40,1,75,7,
   113,20,71,121,21,11,21,11,88,8,26,134,86,0,72,0,3,1,2,1,3,1,5,0,13,0,2,0,8,0,66,0,5,1,9,0,8,0,29,
   0,5,0,6,0,2,2,8,0,341,1,293,1,703,14,6,0,16,1103,32,5,7,212,8,0,18,1,8,0,3,0,6,4,63,32,2,111,46,
   2,15,1,11,3,3,319,32,16,59,4,2,463,43,213,44,3,2,191,32,0,23,7,3,223,8,0,5,0,3,0,16,0,198,1,17,
   40,77,3,11,3,3,784,69,75,62,193,5,0,28,0,3,0,2,1,2,0,11,0,5,0,2,0,2,5,2,3,2,0,2,0,2,0,4,0,3,0,2,
   1,2,0,2,0,2,0,2,0,2,0,3,0,2,1,5,0,8,0,5,0,5,0,2,0,11,0,18,4,4,0,6,0,18,51,3,269,45,3,101,11,16,1,
   16,0,16,0,38,9,175,55,30,12,45,3,10,6,3,13,7,153,986,2,18,2,14,2,219,5,13,3,2,14,13,3,57,7,11,5,
   41,7,31,1,13,3,3,13,10,38,345,7,15,1,14,2,12,2,58,0,2,3,17,1,13,3,11,6,148,0,104,1028,42721,31,
   4383,1,5775,1,7474,14,623,2465,543,1505,4940,4,8491,904069]

/-- Marks with the property Grapheme_Extend. -/
def extenderRuns : List Run := chain 1 0
  [768,111,276,6,264,44,2,0,2,1,2,1,2,0,73,10,49,20,17,0,102,6,3,5,3,1,2,3,36,0,31,26,92,10,59,8,10,
   0,25,3,2,8,2,2,2,4,44,2,60,8,43,23,2,31,56,0,2,0,5,7,5,0,4,6,11,1,30,0,59,0,2,0,3,3,9,0,10,0,11,
   1,27,0,3,1,58,0,5,1,5,1,3,2,4,0,31,1,4,0,12,1,58,0,5,4,2,1,5,0,21,1,23,5,2,0,59,0,2,1,2,3,9,0,8,
   2,11,1,31,0,60,0,2,0,13,0,10,0,41,0,4,0,56,0,2,2,6,2,2,3,8,1,12,1,30,0,59,0,3,1,2,0,4,2,2,3,8,1,
   12,1,29,1,58,1,2,0,3,3,9,0,10,0,11,1,30,0,73,0,5,0,3,2,2,0,9,0,82,0,3,6,13,7,99,0,3,8,12,6,74,1,
   28,0,2,0,2,0,56,13,2,4,2,1,6,10,2,35,10,0,103,3,2,5,2,1,3,1,26,1,5,2,17,3,14,0,3,1,7,0,16,0,704,
   2,947,3,29,2,30,1,31,1,65,1,2,6,9,0,3,10,10,0,46,2,2,0,118,1,35,0,119,2,5,1,10,0,7,2,220,1,3,0,
   59,0,2,6,2,0,2,0,3,7,7,9,3,0,49,45,3,11,21,3,49,9,5,2,39,8,13,1,33,3,3,5,57,0,2,1,4,0,2,4,57,7,3,
   1,153,2,2,12,2,6,5,0,7,0,4,1,199,63,721,32,3071,2,142,0,97,31,555,5,106,1,30165,3,2,9,33,1,81,1,
   273,0,4,0,5,0,26,1,6,0,152,1,27,17,14,0,39,7,26,10,2,0,45,2,49,0,3,3,3,1,3,0,37,0,68,5,3,1,3,1,
   13,0,9,0,48,0,52,0,2,2,3,1,6,1,2,0,43,1,9,0,239,0,3,0,5,0,20273,0,738,15,17,15,974,0,227,0,150,4,
   1671,2,2,1,6,3,41,2,5,0,166,1,574,3,66,4,318,1,78,5,71,10,50,3,124,0,55,14,42,0,3,1,11,2,50,3,3,
   1,8,0,62,2,37,4,2,7,63,0,13,1,53,8,2,0,9,3,3,0,96,2,3,3,7,0,3,0,158,0,4,7,22,1,58,1,2,0,2,0,13,0,
   10,0,15,6,4,4,68,0,3,5,2,0,3,0,2,2,5,2,2,0,15,1,86,7,3,2,2,0,24,0,82,0,3,5,2,0,3,0,2,1,2,1,236,0,
   3,3,7,1,2,1,28,1,86,7,3,0,2,1,107,0,2,0,3,7,102,0,2,0,3,3,2,4,260,8,2,1,246,0,11,3,5,0,145,3,3,1,
   5,0,33,9,41,5,3,3,9,0,10,5,3,2,47,12,2,1,199,0,2,2,2,0,202,6,2,5,2,0,83,21,3,6,2,1,2,1,123,5,4,0,
   2,1,2,6,2,0,73,1,4,0,2,0,348,1,12,1,53,4,6,2,24,0,5350,0,7,14,11465,11,4,2,2497,4,60,6,1049,0,64,
   3,82,0,12,1,19628,1,4706,45,3,22,543,4,4,5,9,7,3,6,31,3,149,2,1980,54,5,49,9,0,15,0,23,4,2,14,
   1361,6,2,16,3,6,2,1,2,4,101,0,161,6,376,0,62,3,509,3,255,1,244,0,3,0,8,1,6,0,475,6,110,6,792502,
   239]

/-- Whether the character is visible, the plain space included. -/
def isPrintable (c : Char) : Bool :=
  c == ' ' || if c.toNat < 128 then 32 < c.toNat && c.toNat < 127 else !memberOf unprintableRuns c

/-- Whether the character attaches to the one before it. -/
def isExtender (c : Char) : Bool :=
  768 ≤ c.toNat && memberOf extenderRuns c

end Ferry.Text
