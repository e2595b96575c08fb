import HourlyPrices.Zone.Seasons

/-!
# Offset tables of places

The tables cover the years from 1995 to 2099: summer time in the European Union, in the east of the
United States, on Lord Howe Island (half an hour), in Sao Paulo (until 2019) and in Apia (from 2010
to 2021, where at the end of 2011 a whole calendar day was left out).
-/

namespace HourlyPrices.OffsetTable

/-- A table without changes. -/
def fixed (offset : Int) : OffsetTable := ⟨offset, []⟩

/-- Central European time: summer time from the last Sunday of March to the last Sunday of October,
in 1995 to that of September, changing everywhere at 01:00 UTC. -/
def centralEurope : OffsetTable where
  initial := hours 1
  changes :=
    let spring : SeasonRule := ⟨3, .last 0, hours 1, hours 2⟩
    seasonChanges 1995 1995 [spring, ⟨9, .last 0, hours 1, hours 1⟩] ++
    seasonChanges 1996 2099 [spring, ⟨10, .last 0, hours 1, hours 1⟩]

/-- The east of the United States: summer time from April to October, from 2007 on from the second
Sunday of March to the first one of November. -/
def easternAmerica : OffsetTable where
  initial := hours (-5)
  changes :=
    seasonChanges 1995 2006
      [⟨4, .onOrAfter 1 0, hours 7, hours (-4)⟩, ⟨10, .last 0, hours 6, hours (-5)⟩] ++
    seasonChanges 2007 2099
      [⟨3, .onOrAfter 8 0, hours 7, hours (-4)⟩, ⟨11, .onOrAfter 1 0, hours 6, hours (-5)⟩]

/-- Indian standard time. -/
def india : OffsetTable := fixed 19800

/-- Lord Howe Island: half an hour of summer time over the turn of the year. -/
def lordHowe : OffsetTable where
  initial := hours 11
  changes :=
    let toStandard (month : Nat) (day : DayRule) : SeasonRule := ⟨month, day, hours (-9), 37800⟩
    let toSummer (month : Nat) (day : DayRule) : SeasonRule := ⟨month, day, -30600, hours 11⟩
    seasonChanges 1995 1995 [toStandard 3 (.onOrAfter 1 0), toSummer 10 (.last 0)] ++
    seasonChanges 1996 1999 [toStandard 3 (.last 0), toSummer 10 (.last 0)] ++
    seasonChanges 2000 2000 [toStandard 3 (.last 0), toSummer 8 (.last 0)] ++
    seasonChanges 2001 2005 [toStandard 3 (.last 0), toSummer 10 (.last 0)] ++
    seasonChanges 2006 2006 [toStandard 4 (.onOrAfter 1 0), toSummer 10 (.last 0)] ++
    seasonChanges 2007 2007 [toStandard 3 (.last 0), toSummer 10 (.last 0)] ++
    seasonChanges 2008 2099 [toStandard 4 (.onOrAfter 1 0), toSummer 10 (.onOrAfter 1 0)]

/-- Sao Paulo: summer time over the turn of the year, on dates set from year to year. -/
def saoPaulo : OffsetTable where
  initial := hours (-2)
  changes :=
    let toStandard := fun (year : Int) (month day : Nat) =>
      singleChange year month day (hours 2) (hours (-3))
    let toSummer := fun (year : Int) (month day : Nat) =>
      singleChange year month day (hours 3) (hours (-2))
    [toStandard 1995 2 19, toSummer 1995 10 15, toStandard 1996 2 11, toSummer 1996 10 6,
     toStandard 1997 2 16, toSummer 1997 10 6, toStandard 1998 3 1, toSummer 1998 10 11,
     toStandard 1999 2 21, toSummer 1999 10 3, toStandard 2000 2 27, toSummer 2000 10 8,
     toStandard 2001 2 18, toSummer 2001 10 14, toStandard 2002 2 17, toSummer 2002 11 3,
     toStandard 2003 2 16, toSummer 2003 10 19, toStandard 2004 2 15, toSummer 2004 11 2,
     toStandard 2005 2 20, toSummer 2005 10 16, toStandard 2006 2 19, toSummer 2006 11 5,
     toStandard 2007 2 25, toSummer 2007 10 14, toStandard 2008 2 17, toSummer 2008 10 19,
     toStandard 2009 2 15, toSummer 2009 10 18, toStandard 2010 2 21, toSummer 2010 10 17,
     toStandard 2011 2 20, toSummer 2011 10 16, toStandard 2012 2 26, toSummer 2012 10 21,
     toStandard 2013 2 17, toSummer 2013 10 20, toStandard 2014 2 16, toSummer 2014 10 19,
     toStandard 2015 2 22, toSummer 2015 10 18, toStandard 2016 2 21, toSummer 2016 10 16,
     toStandard 2017 2 19, toSummer 2017 10 15, toStandard 2018 2 18, toSummer 2018 11 4,
     toStandard 2019 2 17]

/-- Apia: 11 hours behind UTC until the 30th of December 2011 was left out, 13 hours ahead since;
summer time from the last Sunday of September to the first one of April. -/
def apia : OffsetTable where
  initial := hours (-11)
  changes :=
    [singleChange 2010 9 26 (hours 11) (hours (-10)),
     singleChange 2011 4 2 (hours 14) (hours (-11)),
     singleChange 2011 9 24 (hours 14) (hours (-10)),
     singleChange 2011 12 30 (hours 10) (hours 14)] ++
    seasonChanges 2012 2020
      [⟨4, .onOrAfter 1 0, hours (-10), hours 13⟩, ⟨9, .last 0, hours (-10), hours 14⟩] ++
    [singleChange 2021 4 3 (hours 14) (hours 13)]

end HourlyPrices.OffsetTable
